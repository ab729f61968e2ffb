import TypedJson.Text.Lines

/-!
# Pieces and lines of texts that are put together from lines

Lines that are each followed by a line feed, and hold none themselves, are found again between
the line feeds (`splitAt_append`, `splitAt_lines`). The number of pieces is one more than the
number of separators, whatever the text (`length_splitAt`).
-/

set_option autoImplicit false

namespace TypedJson.Text

variable {separator : Char} {line rest : List Char}

theorem splitAt_ne_nil (separator : Char) (s : List Char) : splitAt separator s ≠ [] := by
  cases s with
  | nil => simp [splitAt]
  | cons c s =>
      rw [splitAt]
      split
      · simp
      · split <;> simp

theorem splitAt_cons_of_ne {c : Char} {piece : List Char} {more : List (List Char)}
    (hc : c ≠ separator) (h : splitAt separator rest = piece :: more) :
    splitAt separator (c :: rest) = (c :: piece) :: more := by
  rw [splitAt, if_neg hc, h]

/-- A line that a separator ends is the first piece. -/
theorem splitAt_append (h : separator ∉ line) (rest : List Char) :
    splitAt separator (line ++ separator :: rest) = line :: splitAt separator rest := by
  induction line with
  | nil => rw [List.nil_append, splitAt, if_pos rfl]
  | cons c line ih =>
      obtain ⟨hc, hline⟩ := not_or.1 (mt List.mem_cons.2 h)
      exact splitAt_cons_of_ne (Ne.symm hc) (ih hline)

/-- A text without separators is one piece. -/
theorem splitAt_of_not_mem (h : separator ∉ line) : splitAt separator line = [line] := by
  induction line with
  | nil => rfl
  | cons c line ih =>
      obtain ⟨hc, hline⟩ := not_or.1 (mt List.mem_cons.2 h)
      exact splitAt_cons_of_ne (Ne.symm hc) (ih hline)

/-- Every line is a piece, and the last piece is empty. -/
theorem splitAt_lines {lines : List (List Char)} (h : ∀ line ∈ lines, separator ∉ line) :
    splitAt separator (lines.flatMap fun line => line ++ [separator]) = lines ++ [[]] := by
  induction lines with
  | nil => rfl
  | cons line lines ih =>
      obtain ⟨hline, hlines⟩ := List.forall_mem_cons.1 h
      rw [List.flatMap_cons, List.append_assoc, List.singleton_append, splitAt_append hline,
        ih hlines, List.cons_append]

theorem length_splitAt (separator : Char) (s : List Char) :
    (splitAt separator s).length = s.count separator + 1 := by
  induction s with
  | nil => rfl
  | cons c s ih =>
      by_cases hc : c = separator
      · rw [splitAt, if_pos hc, List.length_cons, ih, hc, List.count_cons_self]
      · obtain ⟨piece, more, hpieces⟩ := List.exists_cons_of_ne_nil (splitAt_ne_nil separator s)
        rw [hpieces] at ih
        rw [splitAt_cons_of_ne hc hpieces, List.count_cons_of_ne hc, ← ih]
        rfl

/-! ## Lines -/

/-- The line before the first line feed, less a carriage return at its end. -/
theorem lines_append (h : '\n' ∉ line) (rest : List Char) :
    lines (String.ofList (line ++ '\n' :: rest)) =
      String.ofList (dropReturn line) :: lines (String.ofList rest) := by
  obtain ⟨piece, more, hpieces⟩ := List.exists_cons_of_ne_nil (splitAt_ne_nil '\n' rest)
  rw [lines, lines, String.toList_ofList, String.toList_ofList, splitAt_append h, hpieces,
    closeLines, List.map_cons]

/-- A text without line feeds is one line, if it is a line at all. -/
theorem lines_of_not_mem (h : '\n' ∉ line) :
    lines (String.ofList line) = if line.isEmpty then [] else [String.ofList line] := by
  rw [lines, String.toList_ofList, splitAt_of_not_mem h, closeLines]
  split <;> rfl

theorem dropReturn_concat (line : List Char) : dropReturn (line ++ ['\r']) = line := by
  simp [dropReturn]

theorem dropReturn_of_not_mem (h : '\r' ∉ line) : dropReturn line = line := by
  rw [dropReturn, if_neg]
  exact fun hlast => h (List.mem_of_getLast? hlast)

/-- Nothing is added to a line when its end is dropped. -/
theorem mem_of_mem_dropReturn {c : Char} (h : c ∈ dropReturn line) : c ∈ line := by
  unfold dropReturn at h
  split at h
  · exact List.dropLast_subset _ h
  · exact h

end TypedJson.Text
