import LineCalculator.Console.Input
import LineCalculator.Text.Split
import Mathlib.Data.List.Basic

/-!
# Delivered lines

A line ends at its line feed, so none is left in it when that is dropped. Decoding brings none back,
since a line feed is encoded as itself.
-/

namespace LineCalculator

namespace Delivery

theorem exists_of_mem_rawLines {bytes raw : List UInt8} (h : raw ∈ rawLines bytes) :
    ∃ line, lineFeed ∉ line ∧ (raw = line ∨ raw = line ++ [lineFeed]) := by
  have hfront : ∀ {bytes : List UInt8}, lineFeed ∉ bytes.takeWhile (· != lineFeed) := by
    intro bytes hmem
    simpa using mem_takeWhile hmem
  fun_induction rawLines bytes with
  | case1 => cases h
  | case2 bytes hrest hne =>
    obtain rfl := List.mem_singleton.1 h
    refine ⟨raw, ?_, .inl rfl⟩
    have hsplit := List.takeWhile_append_dropWhile (p := (· != lineFeed)) (l := raw)
    rw [hrest, List.append_nil] at hsplit
    rw [← hsplit]
    exact hfront
  | case3 bytes feed rest hrest ih =>
    rcases List.mem_cons.1 h with rfl | hmem
    · have hfeed : feed = lineFeed := by
        have hnot := List.head?_dropWhile_not (· != lineFeed) bytes
        rw [hrest] at hnot
        simpa using hnot
      rw [hfeed]
      exact ⟨_, hfront, .inr rfl⟩
    · exact ih hmem

theorem lineFeed_not_mem_dropEnd {bytes raw : List UInt8} (h : raw ∈ rawLines bytes) :
    lineFeed ∉ dropEnd raw := by
  obtain ⟨line, hline, rfl | rfl⟩ := exists_of_mem_rawLines h
  · have hend : raw.getLast? ≠ some lineFeed := fun hlast => hline (List.mem_of_getLast? hlast)
    rwa [dropEnd, if_neg hend]
  · rw [dropEnd, if_pos List.getLast?_concat, List.dropLast_concat]
    dsimp only
    split
    · exact fun hmem => hline (List.dropLast_subset line hmem)
    · exact hline

theorem lineFeed_mem_utf8Encode {text : Text} (h : '\n' ∈ text) :
    lineFeed ∈ text.utf8Encode.data.toList := by
  obtain ⟨left, right, rfl⟩ := List.append_of_mem h
  have hfeed : ['\n'].utf8Encode.data.toList = [lineFeed] := rfl
  rw [List.utf8Encode_append, List.utf8Encode_cons, ByteArray.data_append, ByteArray.data_append,
    Array.toList_append, Array.toList_append, hfeed]
  simp

/-- No delivered line holds a line feed. -/
theorem lineFeed_not_mem_of_mem_ofBytes {bytes : List UInt8} {text : Text}
    (h : line text ∈ ofBytes bytes) : '\n' ∉ text := by
  obtain ⟨raw, hraw, hdelivered⟩ := List.mem_map.1 h
  intro hmem
  unfold ofRaw at hdelivered
  split at hdelivered
  next decoded hdecoded =>
    obtain rfl := Delivery.line.inj hdelivered
    have hbytes : decoded.toByteArray = ⟨(dropEnd raw).toArray⟩ := by
      rw [String.fromUTF8?] at hdecoded
      split at hdecoded
      · cases hdecoded
        rfl
      · cases hdecoded
    have hfeed := lineFeed_mem_utf8Encode hmem
    rw [String.utf8Encode_toList, hbytes] at hfeed
    exact lineFeed_not_mem_dropEnd hraw hfeed
  next => cases hdelivered

end Delivery

end LineCalculator
