/-
The two constructors of Logger::SourceFile (base/logging.h) on one path: as an array literal, which is what the LOG_
macros pass, and as a C string.

Both take the pointer behind the last slash. The array constructor computes the size from the array's, which counts the
NUL of the literal; so it is one larger than the number of characters, whatever the path.
- `ofArray_eq`, `ofCString_eq`: what each constructor makes of a path;
- `constructors_differ`: they agree on none.
-/
import Glacier.Base.LogRecord

namespace Glacier.Logger.SourceFile

open Cxx

/-- the characters after the last slash, or all of them -/
def basename (path : Bytes) : Bytes := afterLast 47 path

theorem strrchr_none {path : Bytes} (hpath : 0 ∉ path) (h : 47 ∉ path) : strrchr (path ++ [0]) 47 = none := by
  rw [strrchr, takeWhile_ne_append hpath]
  exact if_neg h

/-- the pointer behind the last slash, and the offset of it -/
theorem strrchr_basename {path : Bytes} (hpath : 0 ∉ path) (h : 47 ∈ path) :
    ∃ slash, strrchr (path ++ [0]) 47 = some slash ∧ (path ++ [0]).drop (slash + 1) = basename path ++ [0] := by
  obtain ⟨dir, hsplit, hslash⟩ : ∃ dir, path = dir ++ 47 :: basename path ∧ 47 ∉ basename path := split_afterLast h
  have hdir : 0 ∉ dir := fun hmem => hpath (hsplit ▸ List.mem_append_left _ hmem)
  have hname : 0 ∉ basename path := by
    intro hmem
    rw [hsplit] at hpath
    exact hpath (by simp [hmem])
  refine ⟨dir.length, ?_, ?_⟩
  · have hfound : strrchr (dir ++ 47 :: basename path ++ [0]) 47 = some dir.length := strrchr_slash hdir hname hslash
    rwa [← hsplit] at hfound
  · have hdrop : (dir ++ 47 :: basename path ++ [0]).drop (dir.length + 1) = basename path ++ [0] := by
      rw [List.append_assoc, List.drop_append]
      simp
    rwa [← hsplit] at hdrop

theorem ofArray_eq {path : Bytes} (hpath : 0 ∉ path) :
    ofArray (path ++ [0]) = ⟨cPtr (basename path ++ [0]), Int32.ofNat ((basename path).length + 1)⟩ := by
  by_cases h : 47 ∈ path
  · obtain ⟨slash, hslash, hdrop⟩ := strrchr_basename hpath h
    have hlen := congrArg List.length hdrop
    simp only [List.length_drop, List.length_append, List.length_singleton] at hlen
    simp only [ofArray, hslash, hdrop, List.length_append, List.length_singleton, hlen]
  · simp only [ofArray, strrchr_none hpath h, basename, afterLast_of_not_mem h, List.length_append, List.length_singleton]

theorem ofCString_eq {path : Bytes} (hpath : 0 ∉ path) :
    ofCString (path ++ [0]) = ⟨cPtr (basename path ++ [0]), Int32.ofNat (basename path).length⟩ := by
  have hbase : 0 ∉ basename path := fun hmem => hpath ((afterLast_suffix 47 path).subset hmem)
  have hstrlen : strlen (basename path ++ [0]) = (basename path).length := by rw [strlen, takeWhile_ne_append hbase]
  by_cases h : 47 ∈ path
  · obtain ⟨slash, hslash, hdrop⟩ := strrchr_basename hpath h
    simp only [ofCString, hslash, hdrop, hstrlen]
  · have hbasename : basename path = path := afterLast_of_not_mem h
    rw [hbasename] at hstrlen ⊢
    simp only [ofCString, strrchr_none hpath h, hstrlen]

/-- both constructors denote the base name of the path, with its number of characters, and that is what is streamed -/
structure SameBasename (path : Bytes) : Prop where
  same : ofArray (path ++ [0]) = ofCString (path ++ [0])
  size : (ofArray (path ++ [0])).size.toInt = (basename path).length
  streamed : (ofArray (path ++ [0])).bytes = basename path

theorem size_ne (n : ℕ) : Int32.ofNat (n + 1) ≠ Int32.ofNat n := by
  intro h
  have h := congrArg Int32.toBitVec h
  have h := congrArg BitVec.toNat h
  simp only [Int32.toBitVec_ofNat', BitVec.toNat_ofNat] at h
  omega

/-- **The constructors never agree.** On every path they have the same pointer and different sizes; what is streamed of a
literal is the base name with a NUL behind it, of a C string the base name. -/
theorem constructors_differ (path : Bytes) (hpath : 0 ∉ path) :
    ¬ SameBasename path ∧ (ofArray (path ++ [0])).data = (ofCString (path ++ [0])).data ∧
      ((path ++ [0]).length < 2 ^ 31 → (ofArray (path ++ [0])).bytes = basename path ++ [0] ∧
        (ofCString (path ++ [0])).bytes = basename path) := by
  have hle : (basename path).length ≤ path.length := (afterLast_suffix 47 path).length_le
  rw [ofArray_eq hpath, ofCString_eq hpath]
  refine ⟨?_, rfl, ?_⟩
  · intro hsame
    have hsizes := congrArg SourceFile.size hsame.same
    rw [ofArray_eq hpath, ofCString_eq hpath] at hsizes
    exact size_ne _ hsizes
  · intro hlen
    rw [List.length_append, List.length_singleton] at hlen
    refine ⟨?_, ?_⟩
    · rw [bytes_mk (by omega) (by simp)]
      exact List.take_of_length_le (by simp)
    · rw [bytes_mk (by omega) (by simp)]
      exact List.take_left

theorem constructors_differ_main : ¬ SameBasename (ascii "src/main.cc") ∧
    (ofArray (ascii "src/main.cc" ++ [0])).bytes = basename (ascii "src/main.cc") ++ [0] := by
  have hpath : 0 ∉ ascii "src/main.cc" := by simp [ascii]
  have hlen : (ascii "src/main.cc" ++ [0]).length < 2 ^ 31 := by simp [ascii]
  obtain ⟨hdiffer, -, hbytes⟩ := constructors_differ (ascii "src/main.cc") hpath
  exact ⟨hdiffer, (hbytes hlen).1⟩

/-- a literal that is only a file name -/
theorem literal_counts_nul : ¬ ∀ path : Bytes, 0 ∉ path → SameBasename path := by
  intro hall
  have hpath : (0 : UInt8) ∉ ascii "a" := by simp [ascii]
  have hsame := (hall _ hpath).same
  rw [ofArray_eq hpath, ofCString_eq hpath] at hsame
  exact size_ne _ (congrArg SourceFile.size hsame)

end Glacier.Logger.SourceFile
