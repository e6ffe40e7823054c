import DoubleCurve.Text
import Mathlib.Data.List.Basic

/-!
# Lines and words

How texts and files are cut into lines, and lines into words.
-/

namespace DoubleCurve.Text

/-! ## Lines of texts and of files

A sequence is cut at its first newline, and the rest is cut on its own
(`splitLines_append_cons`). So whole lines at the start of a sequence are the same
whatever follows them (`splitLines_append`), and lines that are written one after
the other, each ended by a newline, are read back (`lines_join`).

In the bytes of a text a newline stands only for a newline and a carriage return
only for a carriage return, so that the lines of a file that is a text are the
lines of the text (`fileLines_eq`).
-/

section Cuts

variable {β : Type} [DecidableEq β] {newline ret : β} {line head : List β}

/-- What holds of a last line, and of a line before what it holds of, holds of every sequence. -/
theorem lines_induction {newline : β} {motive : List β → Prop}
    (last : ∀ line, newline ∉ line → motive line)
    (cons : ∀ line rest, newline ∉ line → motive rest → motive (line ++ newline :: rest))
    (s : List β) : motive s := by
  induction hn : s.length using Nat.strongRecOn generalizing s with
  | ind n ih =>
    by_cases hs : newline ∈ s
    · obtain ⟨line, rest, rfl, hline⟩ := List.eq_append_cons_of_mem hs
      refine cons line rest hline (ih rest.length ?_ rest rfl)
      rw [← hn, List.length_append, List.length_cons]
      omega
    · exact last s hs

theorem splitLines_go_append (h : newline ∉ line) (read rest : List β) :
    splitLines.go newline ret read (line ++ newline :: rest) =
      dropReturn ret (read.reverse ++ line) :: splitLines newline ret rest := by
  induction line generalizing read with
  | nil => rw [List.nil_append, splitLines.go, if_pos rfl, List.append_nil, splitLines]
  | cons c line ih =>
    rw [List.mem_cons, not_or] at h
    rw [List.cons_append, splitLines.go, if_neg (Ne.symm h.1), ih h.2, List.reverse_cons,
      List.append_assoc, List.singleton_append]

/-- What stands before the first newline is the first line, and the rest is cut on its own. -/
theorem splitLines_append_cons (h : newline ∉ line) (rest : List β) :
    splitLines newline ret (line ++ newline :: rest) =
      dropReturn ret line :: splitLines newline ret rest :=
  splitLines_go_append h [] rest

theorem splitLines_go_of_not_mem (h : newline ∉ line) (read : List β) :
    splitLines.go newline ret read line =
      if read.reverse ++ line = [] then [] else [read.reverse ++ line] := by
  induction line generalizing read with
  | nil => simp [splitLines.go]
  | cons c line ih =>
    rw [List.mem_cons, not_or] at h
    rw [splitLines.go, if_neg (Ne.symm h.1), ih h.2, List.reverse_cons, List.append_assoc,
      List.singleton_append]

/-- What has no newline is one line, unless it is empty. -/
theorem splitLines_of_not_mem (h : newline ∉ line) :
    splitLines newline ret line = if line = [] then [] else [line] :=
  splitLines_go_of_not_mem h []

/-- Whole lines are the same whatever follows them. -/
theorem splitLines_append (hhead : head.getLast? = some newline) (rest : List β) :
    splitLines newline ret (head ++ rest) =
      splitLines newline ret head ++ splitLines newline ret rest := by
  induction head using lines_induction with
  | last line hline => exact absurd (List.mem_of_getLast? hhead) hline
  | cons line more hline ih =>
    rw [List.append_assoc, List.cons_append, splitLines_append_cons hline,
      splitLines_append_cons hline, List.cons_append]
    cases more with
    | nil => rfl
    | cons c more =>
      rw [List.getLast?_append_cons, List.getLast?_cons_cons] at hhead
      rw [ih hhead]

end Cuts

/-- Lines that are written one after the other, each with a newline, are read back. -/
theorem lines_join {ls : List String}
    (h : ∀ l ∈ ls, '\n' ∉ l.toList ∧ l.toList.getLast? ≠ some '\r') :
    lines (String.join (ls.map (· ++ "\n"))) = ls := by
  rw [lines, String.toList_join]
  induction ls with
  | nil => rfl
  | cons l ls ih =>
    obtain ⟨⟨hnewline, hreturn⟩, hls⟩ := List.forall_mem_cons.1 h
    rw [List.map_cons, List.flatMap_cons, String.toList_append, List.append_assoc,
      show "\n".toList = ['\n'] from rfl, List.singleton_append, splitLines_append_cons hnewline,
      dropReturn, if_neg hreturn, List.map_cons, String.ofList_toList, ih hls]

/-! ## Bytes -/

/-- The bytes of characters. -/
def encoded (cs : List Char) : List UInt8 := cs.flatMap String.utf8EncodeChar

theorem encoded_append (cs ds : List Char) : encoded (cs ++ ds) = encoded cs ++ encoded ds :=
  List.flatMap_append

theorem encoded_cons (c : Char) (cs : List Char) :
    encoded (c :: cs) = String.utf8EncodeChar c ++ encoded cs :=
  List.flatMap_cons

theorem encoded_eq_nil_iff {cs : List Char} : encoded cs = [] ↔ cs = [] := by
  cases cs with
  | nil => simp [encoded]
  | cons c cs => simp [encoded_cons, String.utf8EncodeChar_ne_nil]

/-- Bytes below 128 stand only for the character with their number. -/
theorem toNat_eq_of_mem_utf8EncodeChar {c : Char} {b : UInt8} (hb : b ∈ String.utf8EncodeChar c)
    (hsmall : b.toNat < 128) : c.toNat = b.toNat := by
  rw [String.utf8EncodeChar.eq_1] at hb
  split at hb
  · rw [List.mem_singleton.1 hb, UInt8.toNat_ofNat', Nat.mod_eq_of_lt (by omega)]
    rfl
  · -- every byte of a longer character has its highest bit set
    exfalso
    split at hb
    · simp only [List.mem_cons, List.not_mem_nil, or_false] at hb
      rcases hb with rfl | rfl <;> rw [UInt8.toNat_ofNat'] at hsmall <;> omega
    · split at hb
      · simp only [List.mem_cons, List.not_mem_nil, or_false] at hb
        rcases hb with rfl | rfl | rfl <;> rw [UInt8.toNat_ofNat'] at hsmall <;> omega
      · simp only [List.mem_cons, List.not_mem_nil, or_false] at hb
        rcases hb with rfl | rfl | rfl | rfl <;> rw [UInt8.toNat_ofNat'] at hsmall <;> omega

theorem utf8EncodeChar_of_lt {c : Char} (h : c.toNat < 128) :
    String.utf8EncodeChar c = [UInt8.ofNat c.toNat] := by
  have hle : c.val.toNat ≤ 127 := Nat.le_of_lt_succ h
  rw [String.utf8EncodeChar.eq_1, if_pos hle]
  rfl

/-- The bytes of a text are read as the text, and no other bytes are. -/
theorem decode?_eq_some_iff {bytes : List UInt8} {s : String} :
    decode? bytes = some s ↔ bytes = encoded s.toList := by
  have hbytes : bytes = encoded s.toList ↔ ByteArray.mk bytes.toArray = s.toByteArray := by
    rw [← String.utf8Encode_toList, List.utf8Encode, ByteArray.ext_iff, List.data_toByteArray]
    exact ⟨fun h => congrArg List.toArray h, fun h => by simpa [encoded] using h⟩
  rw [hbytes, decode?, String.fromUTF8?]
  split
  · rw [Option.some_inj, ← String.toByteArray_inj]
    rfl
  · rename_i hvalid
    simp only [reduceCtorEq, false_iff]
    exact fun heq => hvalid (heq ▸ s.isValidUTF8)

theorem decode?_encoded (cs : List Char) : decode? (encoded cs) = some (String.ofList cs) := by
  rw [decode?_eq_some_iff, String.toList_ofList]

/-- Bytes are no text exactly if they are not valid. -/
theorem decode?_eq_none_iff {bytes : List UInt8} :
    decode? bytes = none ↔ ¬ (ByteArray.mk bytes.toArray).IsValidUTF8 := by
  rw [decode?, String.fromUTF8?, dite_eq_right_iff]
  simp

section Encoding

variable {c d : Char} {cs : List Char}

/-- The byte of a character below 128 stands only for this character. -/
theorem mem_utf8EncodeChar_iff (hd : d.toNat < 128) :
    UInt8.ofNat d.toNat ∈ String.utf8EncodeChar c ↔ c = d := by
  have hbyte : (UInt8.ofNat d.toNat).toNat = d.toNat := by
    rw [UInt8.toNat_ofNat', Nat.mod_eq_of_lt (by omega)]
  constructor
  · intro h
    have heq := toNat_eq_of_mem_utf8EncodeChar h (by rwa [hbyte])
    rw [← Char.ofNat_toNat c, heq, hbyte, Char.ofNat_toNat]
  · rintro rfl
    rw [utf8EncodeChar_of_lt hd]
    exact List.mem_singleton_self _

theorem mem_encoded_iff (hd : d.toNat < 128) : UInt8.ofNat d.toNat ∈ encoded cs ↔ d ∈ cs := by
  simp only [encoded, List.mem_flatMap, mem_utf8EncodeChar_iff hd, exists_eq_right]

/-- A carriage return at the end of a text is one at the end of its bytes. -/
theorem dropReturn_encoded (cs : List Char) :
    dropReturn 13 (encoded cs) = encoded (dropReturn '\r' cs) := by
  rcases List.eq_nil_or_concat cs with rfl | ⟨cs, c, rfl⟩
  · rfl
  · rw [List.concat_eq_append, encoded_append, dropReturn, dropReturn, List.getLast?_concat]
    by_cases hc : c = '\r'
    · rw [hc, if_pos rfl, show encoded ['\r'] = [13] from rfl, List.getLast?_concat, if_pos rfl,
        List.dropLast_concat, List.dropLast_concat]
    · have hlast : (encoded cs ++ encoded [c]).getLast? ≠ some 13 := by
        rw [List.getLast?_append_of_ne_nil _ (by simp [encoded_eq_nil_iff])]
        intro h
        have hmem : (13 : UInt8) ∈ encoded [c] := List.mem_of_getLast? h
        exact hc (List.mem_singleton.1 ((mem_encoded_iff (d := '\r') (by decide)).1 hmem)).symm
      rw [if_neg hlast, if_neg (fun h => hc (Option.some.inj h)), encoded_append]

/-- The lines of the bytes of a text are the bytes of its lines. -/
theorem splitLines_encoded (cs : List Char) :
    splitLines 10 13 (encoded cs) = (splitLines '\n' '\r' cs).map encoded := by
  have hbyte {line : List Char} (h : '\n' ∉ line) : (10 : UInt8) ∉ encoded line :=
    (mem_encoded_iff (d := '\n') (by decide)).not.2 h
  induction cs using lines_induction with
  | last line hline =>
    rw [splitLines_of_not_mem hline, splitLines_of_not_mem (hbyte hline)]
    simp only [encoded_eq_nil_iff]
    split <;> rfl
  | cons line rest hline ih =>
    rw [encoded_append, encoded_cons, show String.utf8EncodeChar '\n' = [10] from rfl,
      List.singleton_append, splitLines_append_cons (hbyte hline), splitLines_append_cons hline, ih,
      dropReturn_encoded, List.map_cons]

end Encoding

/-- The lines of a file that is a text are the lines of the text. -/
theorem fileLines_eq {bytes : List UInt8} {s : String} (h : decode? bytes = some s) :
    fileLines bytes = (lines s).map some := by
  rw [fileLines, decode?_eq_some_iff.1 h, splitLines_encoded, lines, List.map_map, List.map_map]
  exact List.map_congr_left fun line _ => decode?_encoded line

/-! ## Words of a line

`FirstWord text word rest` says which run of characters is the first word of a
text: white space may stand before it, and white space or the end of the text
stands behind it. A text with nothing but white space has no first word, every
other text has one (`blank_or_exists_firstWord`), and `words` lists the first word,
then the first word of what follows it, and so on (`FirstWord.words_eq`,
`words_eq_cons_iff`).
-/

/-- `word` is the first word of the text, and `rest` is what follows it. -/
def FirstWord (text word rest : List Char) : Prop :=
  ∃ blank, text = blank ++ (word ++ rest) ∧ (∀ c ∈ blank, isBlank c = true) ∧ word ≠ [] ∧
    (∀ c ∈ word, isBlank c = false) ∧ ∀ c ∈ rest.head?, isBlank c = true

variable {text word blank rest : List Char} {more : List (List Char)}

theorem isBlank_space : isBlank ' ' = true := by simp [isBlank, blanks, Ranges.contains]

theorem isBlank_newline : isBlank '\n' = true := by simp [isBlank, blanks, Ranges.contains]

theorem isBlank_return : isBlank '\r' = true := by simp [isBlank, blanks, Ranges.contains]

theorem isBlank_of_isDigit {c : Char} (h : c.isDigit = true) : isBlank c = false := by
  have hc := Char.isDigit_iff_toNat.1 h
  simp only [Char.reduceToNat] at hc
  simp only [isBlank, blanks, Ranges.contains, List.any_toArray, List.any_cons, List.any_nil,
    Bool.or_false, Bool.or_eq_false_iff, Bool.and_eq_false_iff, decide_eq_false_iff_not]
  omega

theorem words_of_blank (h : ∀ c ∈ blank, isBlank c = true) (rest : List Char) :
    words (blank ++ rest) = words rest := by
  induction blank with
  | nil => rfl
  | cons c blank ih =>
    obtain ⟨hc, hblank⟩ := List.forall_mem_cons.1 h
    rw [List.cons_append, words, words.go, if_pos hc, if_pos List.isEmpty_nil]
    exact ih hblank

theorem words_go_append (h : ∀ c ∈ word, isBlank c = false) (read rest : List Char) :
    words.go read (word ++ rest) = words.go (word.reverse ++ read) rest := by
  induction word generalizing read with
  | nil => rfl
  | cons c word ih =>
    obtain ⟨hc, hword⟩ := List.forall_mem_cons.1 h
    rw [List.cons_append, words.go, hc, if_neg Bool.false_ne_true, ih hword, List.reverse_cons,
      List.append_assoc, List.singleton_append]

/-- A word that has been read ends at white space or at the end of the text. -/
theorem words_go_of_ne_nil (hword : word ≠ []) (hrest : ∀ c ∈ rest.head?, isBlank c = true) :
    words.go word rest = word.reverse :: words rest := by
  have hread : word.isEmpty = false := List.isEmpty_eq_false_iff.2 hword
  cases rest with
  | nil => rw [words.go, hread, if_neg Bool.false_ne_true, words, words.go, if_pos List.isEmpty_nil]
  | cons c rest =>
    have hc : isBlank c = true := hrest c rfl
    rw [words.go, if_pos hc, hread, if_neg Bool.false_ne_true, words, words.go, if_pos hc,
      if_pos List.isEmpty_nil]

/-- The words of a text are its first one and those of what follows. -/
theorem FirstWord.words_eq (h : FirstWord text word rest) : words text = word :: words rest := by
  obtain ⟨blank, rfl, hblank, hne, hword, hrest⟩ := h
  rw [words_of_blank hblank, words, words_go_append hword, List.append_nil,
    words_go_of_ne_nil (by simpa using hne) hrest, List.reverse_reverse]

theorem head?_dropWhile {p : Char → Bool} {c : Char} (h : c ∈ (text.dropWhile p).head?) :
    p c = false := by
  simpa [Option.mem_def.1 h] using List.head?_dropWhile_not p text

/-- A text is white space or has a first word. -/
theorem blank_or_exists_firstWord (text : List Char) :
    (∀ c ∈ text, isBlank c = true) ∨ ∃ word rest, FirstWord text word rest := by
  have htext := List.takeWhile_append_dropWhile (p := isBlank) (l := text)
  have hblank : ∀ c ∈ text.takeWhile isBlank, isBlank c = true := fun c hc =>
    List.all_eq_true.1 List.all_takeWhile c hc
  cases hrest : text.dropWhile isBlank with
  | nil =>
    rw [hrest, List.append_nil] at htext
    exact .inl (htext ▸ hblank)
  | cons c rest =>
    have hhead : c ∈ (text.dropWhile isBlank).head? := by
      rw [hrest]
      rfl
    have hc : isBlank c = false := head?_dropWhile hhead
    refine .inr ⟨(c :: rest).takeWhile (!isBlank ·), (c :: rest).dropWhile (!isBlank ·),
      text.takeWhile isBlank, ?_, hblank, ?_, fun d hd => ?_, fun d hd => ?_⟩
    · rw [List.takeWhile_append_dropWhile, ← hrest, htext]
    · rw [List.takeWhile_cons_of_pos (by rw [hc]; rfl)]
      exact List.cons_ne_nil _ _
    · simpa using List.all_eq_true.1 List.all_takeWhile d hd
    · simpa using head?_dropWhile hd

/-- The list of words starts with a word exactly if it is the first one of the text. -/
theorem words_eq_cons_iff :
    words text = word :: more ↔ ∃ rest, FirstWord text word rest ∧ words rest = more := by
  constructor
  · intro h
    rcases blank_or_exists_firstWord text with hblank | ⟨first, rest, hfirst⟩
    · rw [← List.append_nil text, words_of_blank hblank] at h
      cases h
    · rw [hfirst.words_eq, List.cons.injEq] at h
      exact ⟨rest, h.1 ▸ hfirst, h.2⟩
  · rintro ⟨rest, hfirst, rfl⟩
    exact hfirst.words_eq

end DoubleCurve.Text
