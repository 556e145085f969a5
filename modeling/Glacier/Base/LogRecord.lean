/-
The record of one log statement (base/logging.h, base/logging.cc): the constructors of Logger, the values that are
streamed into it, and ~Logger, which appends the source position and hands the text to g_output.

The position is appended like any value, piece by piece, each skipped when it does not fit; no room is kept for it.
- `text_putAll`: the text after any pieces, by what was free before each of them;
- `finish_whole`, `finish_nameless`, `finish_cut`: the three ways in which finish can end;
- `one_line_iff`: a statement gives one complete line exactly when the position fits into what its values have left, or
  when only the file name does not fit and the text ends with it anyway;
- `filled_record`: a string that fills the buffer, and a record without a position and without a newline.
-/
import Glacier.Base.LogPieces
import Glacier.Base.LogTime

namespace Glacier

open Cxx

/-! ## Pieces one after the other -/

namespace LogStream

open RawBuffer

variable (snprintf12g : Float → Bytes)

/-- `s << p << … ` -/
def putAll (s : LogStream) (ps : List Piece) : LogStream := ps.foldl (put snprintf12g) s

/-- what a piece makes of the text -/
def offer (text : Bytes) (p : Piece) : Bytes :=
  if p.Fits snprintf12g ((kSmallBuffer : ℤ) - text.length) then text ++ p.render snprintf12g else text

variable {snprintf12g}

theorem text_putAll (h12g : ∀ v, (snprintf12g v).length < kMaxNumericSize) {s : LogStream} (h : Inv s) (ps : List Piece) :
    Inv (s.putAll snprintf12g ps) ∧
      (s.putAll snprintf12g ps).text.data = ps.foldl (offer snprintf12g) s.text.data := by
  induction ps generalizing s with
  | nil => exact ⟨h, rfl⟩
  | cons p ps ih =>
    obtain ⟨hinv, htext⟩ := put_spec h12g h p
    have hoffer : (s.put snprintf12g p).text.data = offer snprintf12g s.text.data p := by
      have havail : s.avail = (kSmallBuffer : ℤ) - (s.text.data.length : ℤ) := (text_avail s).symm
      rw [htext, offer, havail]
      split_ifs
      · rfl
      · rw [List.append_nil]
    rw [List.foldl_cons, ← hoffer]
    exact ih hinv

theorem not_mem_offer {c : UInt8} {text : Bytes} {ps : List Piece} (htext : c ∉ text)
    (hps : ∀ p ∈ ps, c ∉ p.render snprintf12g) : c ∉ ps.foldl (offer snprintf12g) text := by
  induction ps generalizing text with
  | nil => exact htext
  | cons p ps ih =>
    refine ih ?_ fun q hq => hps q (List.mem_cons_of_mem p hq)
    unfold offer
    split_ifs
    · simp [htext, hps p List.mem_cons_self]
    · exact htext

end LogStream

namespace Logger

open LogStream RawBuffer TimeZone

/-! ## Source files -/

/-- strrchr for a character other than NUL, as a distance -/
def strrchr (s : Bytes) (c : UInt8) : Option ℕ :=
  let str := s.takeWhile (· ≠ 0)
  if c ∈ str then some (str.length - 1 - str.reverse.idxOf c) else none

structure SourceFile where
  data : ℕ → UInt8
  size : Int32

namespace SourceFile

/-- SourceFile(const char (&arr)[N]): the size counts the NUL of the literal -/
def ofArray (arr : Bytes) : SourceFile :=
  match strrchr arr 47 with
  | some slash => ⟨cPtr (arr.drop (slash + 1)), Int32.ofNat (arr.length - (slash + 1))⟩
  | none => ⟨cPtr arr, Int32.ofNat arr.length⟩

/-- SourceFile(const char* filename) -/
def ofCString (filename : Bytes) : SourceFile :=
  match strrchr filename 47 with
  | some slash => ⟨cPtr (filename.drop (slash + 1)), Int32.ofNat (strlen (filename.drop (slash + 1)))⟩
  | none => ⟨cPtr filename, Int32.ofNat (strlen filename)⟩

/-- the bytes that are streamed of it -/
def bytes (file : SourceFile) : Bytes := bytesAt file.data 0 file.size.toInt.toNat

theorem strrchr_slash {dir name rest : Bytes} (hdir : 0 ∉ dir) (hname : 0 ∉ name) (hslash : 47 ∉ name) :
    strrchr (dir ++ 47 :: name ++ 0 :: rest) 47 = some dir.length := by
  have hstr : (dir ++ 47 :: name ++ 0 :: rest).takeWhile (· ≠ 0) = dir ++ 47 :: name :=
    takeWhile_ne_append (by simp [hdir, hname]) rest
  have hrev : (dir ++ 47 :: name).reverse = name.reverse ++ 47 :: dir.reverse := by simp
  have hidx : (dir ++ 47 :: name).reverse.idxOf 47 = name.length := by
    rw [hrev, List.idxOf_append_of_notMem (by simpa using hslash)]
    simp
  have hlen : (dir ++ 47 :: name).length = dir.length + 1 + name.length := by simp; omega
  rw [strrchr, hstr]
  rw [if_pos (by simp), hidx, hlen]
  congr 1
  omega

theorem bytes_mk {s : Bytes} {n : ℕ} (hn : n < 2 ^ 31) (hle : n ≤ s.length) :
    (SourceFile.mk (cPtr s) (Int32.ofNat n)).bytes = s.take n := by
  have hint : (Int32.ofNat n).toInt = n := Int32.toInt_ofNat_of_lt hn
  rw [bytes, hint, Int.toNat_natCast, bytesAt_cPtr hle]

/-- the base name of a literal carries its NUL -/
theorem bytes_ofArray {dir name : Bytes} (hdir : 0 ∉ dir) (hname : 0 ∉ name) (hslash : 47 ∉ name)
    (hlen : name.length + 1 < 2 ^ 31) : (ofArray (dir ++ 47 :: name ++ [0])).bytes = name ++ [0] := by
  have hdrop : (dir ++ 47 :: name ++ [0]).drop (dir.length + 1) = name ++ [0] := by
    rw [List.append_assoc, List.drop_append]
    simp
  have hsize : (dir ++ 47 :: name ++ [0]).length - (dir.length + 1) = name.length + 1 := by simp; omega
  unfold ofArray
  rw [strrchr_slash hdir hname hslash]
  dsimp only
  rw [hdrop, hsize, bytes_mk hlen (by simp)]
  exact List.take_of_length_le (by simp)

/-- the base name of a C string does not -/
theorem bytes_ofCString {dir name rest : Bytes} (hdir : 0 ∉ dir) (hname : 0 ∉ name) (hslash : 47 ∉ name)
    (hlen : name.length < 2 ^ 31) : (ofCString (dir ++ 47 :: name ++ 0 :: rest)).bytes = name := by
  have hdrop : (dir ++ 47 :: name ++ 0 :: rest).drop (dir.length + 1) = name ++ 0 :: rest := by
    rw [List.append_assoc, List.drop_append]
    simp
  have hstrlen : strlen (name ++ 0 :: rest) = name.length := by rw [strlen, takeWhile_ne_append hname]
  unfold ofCString
  rw [strrchr_slash hdir hname hslash]
  dsimp only
  rw [hdrop, hstrlen, bytes_mk hlen (by simp)]
  exact List.take_left

end SourceFile

/-! ## Logger -/

inductive LogLevel where
  | trace
  | debug
  | info
  | warn
  | error
  | fatal
deriving DecidableEq

def LogLevelName : LogLevel → Bytes
  | .trace => ascii "TRACE "
  | .debug => ascii "DEBUG "
  | .info => ascii "INFO  "
  | .warn => ascii "WARN  "
  | .error => ascii "ERROR "
  | .fatal => ascii "FATAL "

/-- what cacheTid prints with `%5d ` -/
def tidString (tid : Int32) : Bytes := spacePad 5 tid.toInt ++ ascii " "

/-- `s << T(str, len)` -/
def T (str : Bytes) (len : Int32) : Piece := .append (cPtr str) len

/-- `s << v` for a SourceFile -/
def SourceFile.piece (v : SourceFile) : Piece := .append v.data v.size

structure Impl where
  stream : LogStream
  level : LogLevel
  basename : SourceFile
  line : Int32
  time : ℤ

/-- what formatTime and the constructor of Impl stream in front of the values -/
def Impl.head (t : St) (microSecondsSinceEpoch : ℤ) (tid : Int32) (level : LogLevel) : List Piece :=
  [T t.tTime 19,
    T (fraction t.gLogTimeZone (toInt (microSecondsSinceEpoch.tmod kMicroSecondsPerSecond)))
      (if t.gLogTimeZone.isSome then 8 else 9),
    T (tidString tid) (Int32.ofNat (tidString tid).length), T (LogLevelName level) 6]

/-- what finish streams behind the values -/
def Impl.tail (basename : SourceFile) (line : Int32) : List Piece :=
  [.cString (some (ascii " - ")), basename.piece, .cString (some (ascii ":")), .int line, .cString (some [LF])]

variable (snprintf12g : Float → Bytes)

/-- Impl::Impl on a thread whose variables are `t`, at the given time; the buffer is in memory with whatever bytes -/
def Impl.new (byte : ℕ → UInt8) (t : St) (microSecondsSinceEpoch : ℤ) (tid : Int32) (level : LogLevel) (file : SourceFile)
    (line : Int32) : Except Fault (St × Impl) :=
  (formatTime t microSecondsSinceEpoch).map fun t =>
    (t, ⟨LogStream.putAll snprintf12g (RawBuffer.new byte) (Impl.head t microSecondsSinceEpoch tid level), level, file, line,
      microSecondsSinceEpoch⟩)

/-- `impl.stream() << p << …` -/
def Impl.putAll (i : Impl) (ps : List Piece) : Impl := { i with stream := i.stream.putAll snprintf12g ps }

@[simp] theorem Impl.stream_putAll (i : Impl) (ps : List Piece) :
    (i.putAll snprintf12g ps).stream = i.stream.putAll snprintf12g ps := rfl

def Impl.finish (i : Impl) : Impl := i.putAll snprintf12g (Impl.tail i.basename i.line)

/-- what the constructor that takes a function name streams after Impl -/
def funcPieces : Option Bytes → List Piece
  | some func => [.cString (some func), .char 32]
  | none => []

inductive Act where
  | output (msg : Bytes)
  | flush
  | abort
deriving DecidableEq

/-- Logger::~Logger -/
def destroy (i : Impl) : List Act :=
  [.output (i.finish snprintf12g).stream.text.data] ++ if i.level = .fatal then [.flush, .abort] else []

/-- the Logger after the constructor and the values of a statement, and what is left of the thread's variables -/
def stream (byte : ℕ → UInt8) (t : St) (microSecondsSinceEpoch : ℤ) (tid : Int32) (level : LogLevel) (file : SourceFile)
    (line : Int32) (func : Option Bytes) (values : List Piece) : Except Fault (St × Impl) :=
  (Impl.new snprintf12g byte t microSecondsSinceEpoch tid level file line).map fun (t, i) =>
    (t, i.putAll snprintf12g (funcPieces func ++ values))

/-- the records that are handed to g_output -/
def records (acts : List Act) : List Bytes :=
  acts.filterMap fun
    | .output msg => some msg
    | .flush | .abort => none

/-- the whole position: " - ", the file, ":", the line, and the newline -/
def position (file : SourceFile) (line : Int32) : Bytes :=
  ascii " - " ++ file.bytes ++ ascii ":" ++ numeral line.toInt ++ [LF]

/-- the record is one line, and ends with the whole position -/
structure OneLine (file : SourceFile) (line : Int32) (record : Bytes) : Prop where
  position : position file line <:+ record
  newline : ∀ front back, record = front ++ LF :: back → back = []

/-- The text leaves room for the position: 3 bytes, the file, one byte, kMaxNumericSize for the line number. Or the file
name, and nothing else, does not fit, and what stands there ends with it. -/
def Room (file : SourceFile) (text : Bytes) : Prop :=
  text.length + 36 + file.bytes.length ≤ kSmallBuffer ∧ LF ∉ file.bytes ∨
    text.length + 36 ≤ kSmallBuffer ∧ kSmallBuffer ≤ text.length + file.bytes.length + 3 ∧
      ascii " - " ++ file.bytes <:+ text ++ ascii " - "

/-! ## The three ways of finish -/

variable {snprintf12g : Float → Bytes}

theorem offer_bytes {text : Bytes} {p : Piece} {piece : Bytes} (hrender : p.render snprintf12g = piece)
    (hnumeric : p.numeric = false) :
    offer snprintf12g text p = if text.length + piece.length < kSmallBuffer then text ++ piece else text := by
  subst hrender
  have hfit : p.Fits snprintf12g ((kSmallBuffer : ℤ) - text.length) ↔
      text.length + (p.render snprintf12g).length < kSmallBuffer := by
    rw [Piece.Fits, hnumeric, if_neg Bool.false_ne_true]
    omega
  rw [offer]
  simp only [hfit]

theorem offer_colon (text : Bytes) :
    offer snprintf12g text (.cString (some (ascii ":"))) =
      if text.length + 1 < kSmallBuffer then text ++ ascii ":" else text := offer_bytes rfl rfl

theorem offer_newline (text : Bytes) :
    offer snprintf12g text (.cString (some [LF])) = if text.length + 1 < kSmallBuffer then text ++ [LF] else text :=
  offer_bytes rfl rfl

theorem offer_int (text : Bytes) (line : Int32) :
    offer snprintf12g text (.int line) =
      if text.length + 32 ≤ kSmallBuffer then text ++ numeral line.toInt else text := by
  have hfit : (Piece.int line).Fits snprintf12g ((kSmallBuffer : ℤ) - text.length) ↔ text.length + 32 ≤ kSmallBuffer := by
    rw [Piece.Fits, if_pos (show (Piece.int line).numeric = true from rfl)]
    unfold kMaxNumericSize
    omega
  rw [offer]
  simp only [hfit]
  rfl

/-- from the colon on, where the line number fits -/
theorem rest_whole {text : Bytes} (line : Int32) (hlen : text.length + 33 ≤ kSmallBuffer) :
    [Piece.cString (some (ascii ":")), .int line, .cString (some [LF])].foldl (offer snprintf12g) text =
      text ++ ascii ":" ++ numeral line.toInt ++ [LF] := by
  have hnumeral : (numeral line.toInt).length ≤ 11 :=
    length_numeral_le (by decide) (by have := line.toInt_lt; have := line.le_toInt; omega)
  have hcolon : (text ++ ascii ":").length = text.length + 1 := List.length_append
  have hint : (text ++ ascii ":" ++ numeral line.toInt).length = text.length + 1 + (numeral line.toInt).length := by
    rw [List.length_append, hcolon]
  simp only [List.foldl_cons, List.foldl_nil]
  rw [offer_colon, if_pos (by omega), offer_int, if_pos (by omega), offer_newline, if_pos (by omega)]

variable (snprintf12g) in
/-- from the colon on, where the line number does not fit: what is left of it is nothing, a colon, or an empty number -/
theorem rest_cut (text : Bytes) (line : Int32) (hlen : kSmallBuffer < text.length + 33) :
    ∃ rest ∈ [[], ascii ":", ascii ":" ++ [LF]],
      [Piece.cString (some (ascii ":")), .int line, .cString (some [LF])].foldl (offer snprintf12g) text = text ++ rest := by
  have hcolon : (text ++ ascii ":").length = text.length + 1 := List.length_append
  simp only [List.foldl_cons, List.foldl_nil]
  by_cases hfirst : text.length + 1 < kSmallBuffer
  · rw [offer_colon, if_pos hfirst, offer_int, if_neg (by omega), offer_newline]
    split_ifs
    · exact ⟨ascii ":" ++ [LF], by simp, List.append_assoc _ _ _⟩
    · exact ⟨ascii ":", by simp, rfl⟩
  · rw [offer_colon, if_neg hfirst, offer_int, if_neg (by omega), offer_newline, if_neg hfirst]
    exact ⟨[], by simp, (List.append_nil text).symm⟩

variable {file : SourceFile} {line : Int32} {text : Bytes}

/-- the text after finish -/
def finishText (snprintf12g : Float → Bytes) (file : SourceFile) (line : Int32) (text : Bytes) : Bytes :=
  (Impl.tail file line).foldl (offer snprintf12g) text

/-- finish is the dash, the file, and the rest -/
theorem finishText_eq : finishText snprintf12g file line text =
    [Piece.cString (some (ascii ":")), .int line, .cString (some [LF])].foldl (offer snprintf12g)
      (offer snprintf12g (offer snprintf12g text (.cString (some (ascii " - ")))) file.piece) := by
  rw [finishText, Impl.tail]
  simp only [List.foldl_cons, List.foldl_nil]

theorem offer_dash (text : Bytes) :
    offer snprintf12g text (.cString (some (ascii " - "))) =
      if text.length + 3 < kSmallBuffer then text ++ ascii " - " else text := offer_bytes rfl rfl

theorem offer_file (file : SourceFile) (text : Bytes) :
    offer snprintf12g text file.piece =
      if text.length + file.bytes.length < kSmallBuffer then text ++ file.bytes else text := offer_bytes rfl rfl

theorem finish_whole (h : text.length + 36 + file.bytes.length ≤ kSmallBuffer) :
    finishText snprintf12g file line text = text ++ position file line := by
  have hdash : (text ++ ascii " - ").length = text.length + 3 := List.length_append
  have hfile : (text ++ ascii " - " ++ file.bytes).length = text.length + 3 + file.bytes.length := by
    rw [List.length_append, hdash]
  rw [finishText_eq, offer_dash, if_pos (by omega), offer_file, if_pos (by omega), rest_whole line (by omega)]
  simp only [position, List.append_assoc]

variable (snprintf12g line) in
/-- the file name is skipped, and everything else fits -/
theorem finish_nameless (h : text.length + 36 ≤ kSmallBuffer) (hfile : kSmallBuffer ≤ text.length + file.bytes.length + 3) :
    finishText snprintf12g file line text = text ++ ascii " - " ++ ascii ":" ++ numeral line.toInt ++ [LF] := by
  have hdash : (text ++ ascii " - ").length = text.length + 3 := List.length_append
  rw [finishText_eq, offer_dash, if_pos (by omega), offer_file, if_neg (by omega), rest_whole line (by omega)]

variable (snprintf12g line) in
/-- the line number is skipped -/
theorem finish_cut (hwhole : ¬ text.length + 36 + file.bytes.length ≤ kSmallBuffer)
    (hnameless : ¬ (text.length + 36 ≤ kSmallBuffer ∧ kSmallBuffer ≤ text.length + file.bytes.length + 3)) :
    ∃ dash ∈ [[], ascii " - "], ∃ name ∈ [[], file.bytes], ∃ rest ∈ [[], ascii ":", ascii ":" ++ [LF]],
      finishText snprintf12g file line text = text ++ dash ++ name ++ rest := by
  have hdash : (text ++ ascii " - ").length = text.length + 3 := List.length_append
  have hfile : ∀ front : Bytes, (front ++ file.bytes).length = front.length + file.bytes.length :=
    fun front => List.length_append
  rw [finishText_eq, offer_dash, offer_file]
  split_ifs with h3 h4 h4
  · obtain ⟨rest, hrest, heq⟩ := rest_cut snprintf12g (text ++ ascii " - " ++ file.bytes) line
      (by rw [hfile]; omega)
    exact ⟨ascii " - ", by simp, file.bytes, by simp, rest, hrest, heq⟩
  · obtain ⟨rest, hrest, heq⟩ := rest_cut snprintf12g (text ++ ascii " - ") line (by omega)
    exact ⟨ascii " - ", by simp, [], by simp, rest, hrest, by rw [heq, List.append_nil]⟩
  · obtain ⟨rest, hrest, heq⟩ := rest_cut snprintf12g (text ++ file.bytes) line
      (by rw [hfile]; omega)
    exact ⟨[], by simp, file.bytes, by simp, rest, hrest, by rw [heq, List.append_nil]⟩
  · obtain ⟨rest, hrest, heq⟩ := rest_cut snprintf12g text line (by omega)
    exact ⟨[], by simp, [], by simp, rest, hrest, by rw [heq, List.append_nil, List.append_nil]⟩

/-! ## One line -/

theorem only_last_iff {body : Bytes} :
    (∀ front back, body ++ [LF] = front ++ LF :: back → back = []) ↔ LF ∉ body := by
  constructor
  · intro h hmem
    obtain ⟨front, back, rfl⟩ := List.append_of_mem hmem
    have := h front (back ++ [LF]) (by simp)
    simp at this
  · intro hbody front back heq
    by_contra hback
    obtain ⟨mid, c, rfl⟩ := List.eq_nil_or_concat back |>.resolve_left hback
    have hinit : body = front ++ LF :: mid := by
      rw [List.concat_eq_append, ← List.cons_append, ← List.append_assoc] at heq
      exact List.append_inj_left' heq rfl
    exact hbody (by simp [hinit])

/-- A record without the line number does not end with the position: it ends with a colon and a newline, or it has fewer
newlines than the position. -/
theorem not_position_of_cut {name rest : Bytes} (htext : LF ∉ text) (hname : name ∈ [[], file.bytes])
    (hrest : rest ∈ [[], ascii ":", ascii ":" ++ [LF]]) : ¬ position file line <:+ text ++ name ++ rest := by
  intro hsuffix
  have hlf : (text ++ name).count LF ≤ file.bytes.count LF := by
    rw [List.count_append, List.count_eq_zero.2 htext]
    rcases List.mem_cons.1 hname with rfl | hname
    · simp
    · rw [List.mem_singleton.1 hname]; omega
  have hposition : file.bytes.count LF < (position file line).count LF := by
    simp [position, List.count_append]
    omega
  have hle := hsuffix.sublist.count_le LF
  simp only [List.mem_cons, List.not_mem_nil, or_false] at hrest
  rcases hrest with rfl | rfl | rfl
  · rw [List.append_nil] at hle
    omega
  · rw [List.count_append, show (ascii ":").count LF = 0 from rfl] at hle
    omega
  · -- the last character of the number would be the colon
    obtain ⟨front, hfront⟩ := hsuffix
    obtain ⟨init, d, hnum, hlow, hhigh⟩ := getLast_numeral line.toInt
    have hinit : front ++ ascii " - " ++ file.bytes ++ ascii ":" ++ init ++ [d] = text ++ name ++ ascii ":" := by
      rw [position, hnum] at hfront
      simp only [← List.append_assoc] at hfront
      exact List.append_cancel_right hfront
    have hd : [d] = ascii ":" := List.append_inj_right' hinit rfl
    rw [(List.singleton_inj (b := 58)).1 hd] at hhigh
    exact absurd hhigh (by decide)

/-- where everything fits -/
theorem oneLine_whole (htext : LF ∉ text) (hwhole : text.length + 36 + file.bytes.length ≤ kSmallBuffer) :
    OneLine file line (finishText snprintf12g file line text) ↔ LF ∉ file.bytes := by
  have hnum : LF ∉ numeral line.toInt := not_mem_numeral (by decide) _
  have hdash : LF ∉ ascii " - " := by decide
  have hcolon : LF ∉ ascii ":" := by decide
  have hbody : finishText snprintf12g file line text =
      (text ++ ascii " - " ++ file.bytes ++ ascii ":" ++ numeral line.toInt) ++ [LF] := by
    rw [finish_whole hwhole]; simp only [position, List.append_assoc]
  constructor
  · intro h hfile
    have hlf := only_last_iff.1 (hbody ▸ h.newline)
    exact hlf (by simp [hfile])
  · intro hfile
    exact ⟨⟨text, (finish_whole hwhole).symm⟩, hbody ▸ only_last_iff.2 (by simp [htext, hdash, hfile, hcolon, hnum])⟩

/-- where only the file name does not fit: what stands in front of the colon must end with it -/
theorem oneLine_nameless (htext : LF ∉ text) (hlen : text.length + 36 ≤ kSmallBuffer)
    (hfile : kSmallBuffer ≤ text.length + file.bytes.length + 3) :
    OneLine file line (finishText snprintf12g file line text) ↔ ascii " - " ++ file.bytes <:+ text ++ ascii " - " := by
  have hnum : LF ∉ numeral line.toInt := not_mem_numeral (by decide) _
  have hdash : LF ∉ ascii " - " := by decide
  have hcolon : LF ∉ ascii ":" := by decide
  have hbody := finish_nameless snprintf12g line hlen hfile
  have hsuffix : position file line <:+ finishText snprintf12g file line text ↔
      ascii " - " ++ file.bytes <:+ text ++ ascii " - " := by
    rw [hbody, position]
    constructor
    · rintro ⟨front, hfront⟩
      refine ⟨front, ?_⟩
      simp only [← List.append_assoc] at hfront
      have h1 := List.append_cancel_right (List.append_cancel_right (List.append_cancel_right hfront))
      simpa using h1
    · rintro ⟨front, hfront⟩
      refine ⟨front, ?_⟩
      simp only [← List.append_assoc] at hfront ⊢
      rw [hfront]
  constructor
  · exact fun h => hsuffix.1 h.position
  · exact fun h => ⟨hsuffix.2 h, hbody ▸ only_last_iff.2 (by simp [htext, hdash, hcolon, hnum])⟩

variable (snprintf12g line) in
/-- where the line number does not fit -/
theorem not_oneLine_cut (htext : LF ∉ text) (hwhole : ¬ text.length + 36 + file.bytes.length ≤ kSmallBuffer)
    (hnameless : ¬ (text.length + 36 ≤ kSmallBuffer ∧ kSmallBuffer ≤ text.length + file.bytes.length + 3)) :
    ¬ OneLine file line (finishText snprintf12g file line text) := by
  have hdash : LF ∉ ascii " - " := by decide
  obtain ⟨dash, hdashm, name, hname, rest, hrest, heq⟩ := finish_cut snprintf12g line hwhole hnameless
  have hfront : LF ∉ text ++ dash := by
    simp only [List.mem_cons, List.not_mem_nil, or_false] at hdashm
    rcases hdashm with rfl | rfl <;> simp [htext, hdash]
  intro h
  exact not_position_of_cut hfront hname hrest (heq ▸ h.position)

variable (snprintf12g line) in
/-- **finish, by the room it finds** -/
theorem oneLine_finish_iff (htext : LF ∉ text) :
    OneLine file line (finishText snprintf12g file line text) ↔ Room file text := by
  unfold Room
  by_cases hwhole : text.length + 36 + file.bytes.length ≤ kSmallBuffer
  · rw [oneLine_whole htext hwhole]
    -- then the file name fits as well
    have hname : ¬ kSmallBuffer ≤ text.length + file.bytes.length + 3 := by omega
    simp only [hwhole, hname, true_and, false_and, and_false, or_false]
  · by_cases hnameless : text.length + 36 ≤ kSmallBuffer ∧ kSmallBuffer ≤ text.length + file.bytes.length + 3
    · rw [oneLine_nameless htext hnameless.1 hnameless.2]
      simp only [hwhole, hnameless.1, hnameless.2, true_and, false_and, false_or]
    · refine iff_of_false (not_oneLine_cut snprintf12g line htext hwhole hnameless) ?_
      rintro (h | h)
      · exact hwhole h.1
      · exact hnameless ⟨h.1, h.2.1⟩

/-! ## From the constructor to g_output -/

/-- the text of a second, rendered or zero-filled, has no newline -/
theorem Inv.not_mem_tTime {t : St} (h : Inv t) : LF ∉ t.tTime := by
  cases hz : t.renderedIn with
  | none =>
    rw [h.fresh hz]
    decide
  | some z =>
    obtain ⟨l, hl⟩ := render_format (h.rendered z hz)
    have hzero : ∀ w n, LF ∉ zeroPad w n := not_mem_zeroPad (by decide)
    have hspace : ∀ w n, LF ∉ spacePad w n := not_mem_spacePad (by decide)
    have hminus : LF ∉ ascii "-" := by decide
    have hblank : LF ∉ ascii " " := by decide
    have hcolon : LF ∉ ascii ":" := by decide
    rw [hl, format]
    simp [hzero, hspace, hminus, hblank, hcolon]

theorem not_mem_fraction (zone : Option TimeZone.Data) (us : ℤ) : LF ∉ fraction zone us := by
  have hzero : ∀ w n, LF ∉ zeroPad w n := not_mem_zeroPad (by decide)
  have hcolon : LF ∉ ascii ":" := by decide
  have hblank : LF ∉ ascii " " := by decide
  have hz : LF ∉ ascii "Z " := by decide
  cases zone with
  | none => exact fun hmem => absurd (List.mem_of_mem_take hmem) (by simp [hzero, hcolon, hz])
  | some data => exact fun hmem => absurd (List.mem_of_mem_take hmem) (by simp [hzero, hcolon, hblank])

/-- what T streams is a part of its string, and NULs behind it -/
theorem not_mem_T {str : Bytes} {c : UInt8} (hstr : c ∉ str) (hc : c ≠ 0) (len : Int32) :
    c ∉ (T str len).render snprintf12g := by
  intro hmem
  obtain ⟨i, -, hi⟩ := List.mem_map.1 hmem
  unfold cPtr at hi
  by_cases hlt : i < str.length
  · have hget : str[i] = c := by simpa [hlt] using hi
    exact hstr (hget ▸ List.getElem_mem hlt)
  · have hnul : 0 = c := by simpa [hlt] using hi
    exact hc hnul.symm

theorem not_mem_head {t : St} (h : Inv t) (us : ℤ) (tid : Int32) (level : LogLevel) :
    ∀ p ∈ Impl.head t us tid level, LF ∉ p.render snprintf12g := by
  have htid : LF ∉ tidString tid := by
    have hspace : LF ∉ spacePad 5 tid.toInt := not_mem_spacePad (by decide) _ _
    have hblank : LF ∉ ascii " " := by decide
    simp [tidString, hspace, hblank]
  have hlevel : LF ∉ LogLevelName level := by cases level <;> decide
  simp only [Impl.head, List.forall_mem_cons, List.not_mem_nil, false_implies, implies_true, and_true]
  exact ⟨not_mem_T h.not_mem_tTime (by decide) 19, not_mem_T (not_mem_fraction _ _) (by decide) _,
    not_mem_T htid (by decide) _, not_mem_T hlevel (by decide) 6⟩

theorem not_mem_funcPieces {func : Option Bytes} (hfunc : ∀ f ∈ func, LF ∉ f) :
    ∀ p ∈ funcPieces func, LF ∉ p.render snprintf12g := by
  cases func with
  | none => simp [funcPieces]
  | some f =>
    have hname : LF ∉ (Piece.cString (some f)).render snprintf12g :=
      fun hmem => hfunc f rfl ((List.takeWhile_prefix _).subset hmem)
    have hblank : LF ∉ (Piece.char 32).render snprintf12g := by change LF ∉ [32]; decide
    simp only [funcPieces, List.forall_mem_cons, List.not_mem_nil, false_implies, implies_true, and_true]
    exact ⟨hname, hblank⟩

/-- the text of a Logger that values have been streamed into -/
theorem text_stream (h12g : ∀ v, (snprintf12g v).length < kMaxNumericSize) {byte : ℕ → UInt8} {t t' : St} {us : ℤ}
    {tid : Int32} {level : LogLevel} {func : Option Bytes} {values : List Piece} {i : Impl}
    (hi : stream snprintf12g byte t us tid level file line func values = .ok (t', i)) :
    formatTime t us = .ok t' ∧ i.basename = file ∧ i.line = line ∧ RawBuffer.Inv i.stream ∧
      i.stream.text.data = (Impl.head t' us tid level ++ (funcPieces func ++ values)).foldl (offer snprintf12g) [] := by
  cases hu : formatTime t us with
  | error e => simp [stream, Impl.new, hu, Except.map] at hi
  | ok u =>
    simp only [stream, Impl.new, hu, Except.map, Except.ok.injEq, Prod.mk.injEq] at hi
    obtain ⟨rfl, rfl⟩ := hi
    have hnew : RawBuffer.Inv (RawBuffer.new byte : LogStream) := inv_new (by decide) byte
    obtain ⟨hinv, htext⟩ := text_putAll h12g hnew (Impl.head u us tid level)
    obtain ⟨hinv', htext'⟩ := text_putAll h12g hinv (funcPieces func ++ values)
    simp only [Impl.stream_putAll]
    refine ⟨trivial, rfl, rfl, hinv', ?_⟩
    have hempty : (RawBuffer.new byte : LogStream).text.data = [] := rfl
    rw [htext', htext, hempty, ← List.foldl_append]

theorem not_mem_stream (h12g : ∀ v, (snprintf12g v).length < kMaxNumericSize) {byte : ℕ → UInt8} {t t' : St} (h : Inv t)
    {us : ℤ} {tid : Int32} {level : LogLevel} {func : Option Bytes} {values : List Piece} {i : Impl}
    (hfunc : ∀ f ∈ func, LF ∉ f) (hvalues : ∀ p ∈ values, LF ∉ p.render snprintf12g)
    (hi : stream snprintf12g byte t us tid level file line func values = .ok (t', i)) : LF ∉ i.stream.text.data := by
  obtain ⟨ht', -, -, -, htext⟩ := text_stream h12g hi
  have hstep : step t (.log us) = some t' := by simp [step, ht', Except.toOption]
  rw [htext]
  refine not_mem_offer List.not_mem_nil ?_
  intro p hp
  rcases List.mem_append.1 hp with hp | hp
  · exact not_mem_head (step_right t _ t' h hstep).1 us tid level p hp
  rcases List.mem_append.1 hp with hp | hp
  · exact not_mem_funcPieces hfunc p hp
  · exact hvalues p hp

/-- ~Logger hands one record to g_output, the text after finish -/
theorem records_destroy (h12g : ∀ v, (snprintf12g v).length < kMaxNumericSize) {i : Impl} (h : RawBuffer.Inv i.stream) :
    records (destroy snprintf12g i) = [finishText snprintf12g i.basename i.line i.stream.text.data] := by
  have hfinish : (i.finish snprintf12g).stream.text.data =
      finishText snprintf12g i.basename i.line i.stream.text.data := by
    rw [Impl.finish, Impl.stream_putAll]
    exact (text_putAll h12g h _).2
  rw [← hfinish]
  unfold destroy records
  split_ifs <;> rfl

/-- **One statement, one line.** In whatever state the thread's time variables are, and whatever newline-free values are
streamed: ~Logger hands one record to g_output, and it is one line with the whole position exactly when the values have left
room for it. -/
theorem one_line_iff (snprintf12g : Float → Bytes) (h12g : ∀ v, (snprintf12g v).length ≤ 31) (byte : ℕ → UInt8)
    (ops : List Op) (t : St) (ht : Machine.run step init ops = some t) (us : ℤ) (tid : Int32) (level : LogLevel)
    (file : SourceFile) (line : Int32) (func : Option Bytes) (hfunc : ∀ f ∈ func, LF ∉ f) (values : List Piece)
    (hvalues : ∀ p ∈ values, LF ∉ p.render snprintf12g) (t' : St) (i : Impl)
    (hi : stream snprintf12g byte t us tid level file line func values = .ok (t', i)) :
    (∃ record, records (destroy snprintf12g i) = [record] ∧ OneLine file line record) ↔ Room file i.stream.text.data := by
  have hlt : ∀ v, (snprintf12g v).length < kMaxNumericSize := fun v => Nat.lt_succ_of_le (h12g v)
  have hinit : Inv init := ⟨by simp [init], fun _ => rfl⟩
  have hinv : Inv t := Machine.run_inv (fun s o u hs hu => (step_right s o u hs hu).1) hinit ht
  obtain ⟨-, hfile, hline, hbuffer, -⟩ := text_stream hlt hi
  rw [records_destroy hlt hbuffer, hfile, hline,
    ← oneLine_finish_iff snprintf12g line (not_mem_stream hlt hinv hfunc hvalues hi)]
  simp

/-- LOG_INFO in line 42 of src/main.cc, one and a half seconds after the epoch on a thread that has not logged before -/
def logInfo (values : List Piece) : Except Fault (St × Impl) :=
  stream (fun _ => ascii "0") (fun _ => 0) init 1500000 77 .info (SourceFile.ofArray (ascii "src/main.cc" ++ [0])) 42 none
    values

theorem one_line_iff_short : ∃ t i, logInfo [.cString (some (ascii "size ")), .int (-7)] = .ok (t, i) ∧
    ∃ record, records (destroy (fun _ => ascii "0") i) = [record] ∧
      OneLine (SourceFile.ofArray (ascii "src/main.cc" ++ [0])) 42 record := by
  refine ⟨_, _, rfl, (one_line_iff (fun _ => ascii "0") (fun _ => by decide) (fun _ => 0) [] init rfl 1500000 77 .info
    (SourceFile.ofArray (ascii "src/main.cc" ++ [0])) 42 none (by simp) [.cString (some (ascii "size ")), .int (-7)]
    (by decide) _ _ rfl).2 (Or.inl ⟨by decide +kernel, by decide +kernel⟩)⟩

/-- the date and time, the thread and the level -/
theorem length_head {t : St} (ht : formatTime init 1500000 = .ok t) :
    ((Impl.head t 1500000 77 .info).foldl (offer fun _ => ascii "0") []).length = 40 := by
  cases ht
  decide +kernel

/-- a string that leaves one byte free -/
theorem filled_record : ∃ t i, logInfo [.string (List.replicate 3959 120)] = .ok (t, i) ∧
    ¬ ∃ record, records (destroy (fun _ => ascii "0") i) = [record] ∧
      OneLine (SourceFile.ofArray (ascii "src/main.cc" ++ [0])) 42 record := by
  have h12g : ∀ _ : Float, (ascii "0").length < kMaxNumericSize := fun _ => by decide
  have hvalues : ∀ p ∈ [Piece.string (List.replicate 3959 120)], LF ∉ p.render fun _ => ascii "0" := by
    intro p hp
    rw [List.mem_singleton.1 hp]
    exact fun hmem => absurd (List.eq_of_mem_replicate hmem) (by decide)
  obtain ⟨⟨t, i⟩, hi⟩ : ∃ r, logInfo [.string (List.replicate 3959 120)] = .ok r := ⟨_, rfl⟩
  have hinit : Inv init := ⟨by simp [init], fun _ => rfl⟩
  obtain ⟨ht, hfile, hline, hbuffer, htext⟩ := text_stream h12g hi
  have hlen : i.stream.text.data.length = 3999 := by
    have hhead := length_head ht
    rw [htext]
    simp only [funcPieces, List.nil_append, List.foldl_append, List.foldl_cons, List.foldl_nil]
    rw [@offer_bytes _ _ _ (List.replicate 3959 120) rfl rfl, if_pos (by rw [hhead, List.length_replicate]; decide),
      List.length_append, hhead, List.length_replicate]
  refine ⟨t, i, hi, ?_⟩
  rw [records_destroy h12g hbuffer, hfile, hline]
  rintro ⟨record, hrecord, hone⟩
  rw [List.singleton_inj] at hrecord
  subst hrecord
  have hroom := (oneLine_finish_iff _ _ (not_mem_stream h12g hinit (by simp) hvalues hi)).1 hone
  have hsize : kSmallBuffer = 4000 := rfl
  rcases hroom with h | h <;> omega

end Logger

end Glacier
