import DoubleCurve.Proofs.LocusText.Sections
import DoubleCurve.Proofs.Text

/-!
# Locus texts in files

A file is read like the text that its bytes encode (`readBytes_of_valid`). It does
not have to be a text as a whole: it is refused exactly if one of the lines that
reading asks for is no text, and then nothing has been noted. What stands behind
these lines, text or not, does not matter.
-/

namespace DoubleCurve.LocusText

variable {bytes : List UInt8}

/-- The text that valid bytes encode. -/
def validText (bytes : List UInt8) (h : (ByteArray.mk bytes.toArray).IsValidUTF8) : String :=
  .ofByteArray ⟨bytes.toArray⟩ h

theorem decode?_eq_validText (h : (ByteArray.mk bytes.toArray).IsValidUTF8) :
    Text.decode? bytes = some (validText bytes h) := by
  rw [Text.decode?, String.fromUTF8?, dif_pos h]
  rfl

theorem readBytes_of_valid (h : (ByteArray.mk bytes.toArray).IsValidUTF8)
    (found : Array (Notice Float)) : readBytes bytes found =
      (.ok (readString (validText bytes h) found).1, (readString (validText bytes h) found).2) := by
  rw [readBytes, Text.fileLines_eq (decode?_eq_validText h), run_ofLines_some, readString_eq]

/-- A line of a file is no text exactly if its bytes are not valid. -/
theorem none_mem_fileLines_iff (bytes : List UInt8) (n : Nat) : none ∈ (Text.fileLines bytes).take n ↔
    ∃ line ∈ (Text.splitLines 10 13 bytes).take n, ¬ (ByteArray.mk line.toArray).IsValidUTF8 := by
  rw [Text.fileLines, ← List.map_take, List.mem_map]
  simp only [Text.decode?_eq_none_iff]

theorem run_readBytes (bytes : List UInt8) (found : Array (Notice Float)) : readBytes bytes found =
    if none ∈ (Text.fileLines bytes).take (need (Text.fileLines bytes)) then
      (.error .undecodable, found)
    else (.ok (content (Text.fileLines bytes)), found ++ (notice? (Text.fileLines bytes)).toArray) :=
  run_ofLines (Text.fileLines bytes) found

/-- What stands behind whole lines that are enough for reading does not matter. -/
theorem readBytes_append {head tail : List UInt8} (hhead : head.getLast? = some 10)
    (hneed : need (Text.fileLines (head ++ tail)) ≤ (Text.fileLines head).length) (tail' : List UInt8)
    (found : Array (Notice Float)) :
    readBytes (head ++ tail') found = readBytes (head ++ tail) found := by
  have hlines (rest : List UInt8) :
      Text.fileLines (head ++ rest) = Text.fileLines head ++ Text.fileLines rest := by
    rw [Text.fileLines, Text.splitLines_append hhead, List.map_append]
    rfl
  refine run_ofLines_congr ?_ ?_ found
  · rw [hlines tail] at hneed ⊢
    rw [List.length_append]
    omega
  · rw [hlines tail] at hneed ⊢
    rw [hlines tail', List.take_append_of_le_length hneed, List.take_append_of_le_length hneed]

/-- A file that is a text is read as the text. Otherwise it is refused exactly if one of the lines that
reading asks for is no text; then nothing is noted. What stands behind whole lines that hold all that
reading asks for does not matter. -/
theorem lines_of_readBytes (bytes : List UInt8) (found : Array (Notice Float)) :
    (∀ h : (ByteArray.mk bytes.toArray).IsValidUTF8, readBytes bytes found =
      (.ok (readString (validText bytes h) found).1, (readString (validText bytes h) found).2)) ∧
    ((∃ fault, (readBytes bytes found).1 = .error fault) ↔
      ∃ line ∈ (Text.splitLines 10 13 bytes).take (need (Text.fileLines bytes)),
        ¬ (ByteArray.mk line.toArray).IsValidUTF8) ∧
    (∀ fault, (readBytes bytes found).1 = .error fault →
      fault = .undecodable ∧ (readBytes bytes found).2 = found) ∧
    ∀ head tail, bytes = head ++ tail → head.getLast? = some 10 →
      need (Text.fileLines bytes) ≤ (Text.fileLines head).length →
        ∀ tail', readBytes (head ++ tail') found = readBytes bytes found := by
  refine ⟨fun h => readBytes_of_valid h found, ?_, fun fault hfault => ?_, ?_⟩
  · rw [← none_mem_fileLines_iff, run_readBytes]
    split
    · rename_i hnone
      exact iff_of_true ⟨_, rfl⟩ hnone
    · rename_i hnone
      exact iff_of_false (fun ⟨_, h⟩ => nomatch h) hnone
  · rw [run_readBytes] at hfault ⊢
    split at hfault
    · rename_i hnone
      rw [if_pos hnone]
      exact ⟨(Except.error.inj hfault).symm, rfl⟩
    · cases hfault
  · rintro head tail rfl hhead hneed tail'
    exact readBytes_append hhead hneed tail' found

end DoubleCurve.LocusText
