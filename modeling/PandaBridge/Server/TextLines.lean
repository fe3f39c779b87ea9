import PandaBridge.Server.StateFile

/-! The lines of a text file with their newlines, and what a read into a buffer takes of them. -/
namespace Server

/-- The lines of a file, each with its newline when it has one. -/
def wholeLines : Text → List Text
  | [] => []
  | ch :: rest =>
      if ch = '\n' then ['\n'] :: wholeLines rest
      else
        match wholeLines rest with
        | [] => [[ch]]
        | line :: later => (ch :: line) :: later

/-- A line without its newline. -/
def lineText (line : Text) : Text := line.takeWhile (· ≠ '\n')

theorem wholeLines_newline {line : Text} (hPlain : '\n' ∉ line) (rest : Text) :
    wholeLines (line ++ '\n' :: rest) = (line ++ ['\n']) :: wholeLines rest := by
  induction line with
  | nil => rfl
  | cons ch line ih =>
      rw [List.mem_cons, not_or] at hPlain
      rw [List.cons_append, wholeLines, if_neg (Ne.symm hPlain.1), ih hPlain.2]
      rfl

theorem wholeLines_last {line : Text} (hPlain : '\n' ∉ line) (hFilled : line ≠ []) :
    wholeLines line = [line] := by
  induction line with
  | nil => exact absurd rfl hFilled
  | cons ch line ih =>
      rw [List.mem_cons, not_or] at hPlain
      rw [wholeLines, if_neg (Ne.symm hPlain.1)]
      cases line with
      | nil => rfl
      | cons next line => rw [ih hPlain.2 (List.cons_ne_nil _ _)]

theorem lineText_of_plain {line : Text} (hPlain : '\n' ∉ line) : lineText line = line :=
  List.takeWhile_eq_self_iff.mpr fun _ hMem => decide_eq_true fun h => hPlain (h ▸ hMem)

theorem lineText_newline {line : Text} (hPlain : '\n' ∉ line) :
    lineText (line ++ ['\n']) = line := by
  have hText : ∀ ch ∈ line, decide (ch ≠ '\n') = true :=
    fun ch hMem => decide_eq_true fun h => hPlain (h ▸ hMem)
  rw [lineText, List.takeWhile_append_of_pos hText]
  simp

theorem exists_first_line {file : Text} (hFilled : file ≠ []) : ∃ text, '\n' ∉ text ∧
    (file = text ∨ ∃ rest, file = text ++ '\n' :: rest) := by
  induction file with
  | nil => exact absurd rfl hFilled
  | cons ch file ih =>
      by_cases hNewline : ch = '\n'
      · exact ⟨[], List.not_mem_nil, Or.inr ⟨file, by rw [hNewline]; rfl⟩⟩
      · cases file with
        | nil => exact ⟨[ch], by simpa using Ne.symm hNewline, Or.inl rfl⟩
        | cons next file =>
            obtain ⟨text, hPlain, hText⟩ := ih (List.cons_ne_nil _ _)
            refine ⟨ch :: text, ?_, hText.imp (congrArg (ch :: ·)) fun ⟨rest, hRest⟩ =>
              ⟨rest, congrArg (ch :: ·) hRest⟩⟩
            rw [List.mem_cons, not_or]
            exact ⟨Ne.symm hNewline, hPlain⟩

theorem splitLine_plain {text : Text} (hPlain : '\n' ∉ text) :
    BufferedFile.splitLine text = none := by
  induction text with
  | nil => rfl
  | cons ch text ih =>
      rw [List.mem_cons, not_or] at hPlain
      rw [BufferedFile.splitLine, if_neg (Ne.symm hPlain.1), ih hPlain.2]
      rfl

/-- Where the buffer has no newline it is filled. -/
theorem fgets_plain {file : Text} (hFilled : file ≠ []) {room : Nat}
    (hPlain : '\n' ∉ file.take room) :
    fgets (room + 1) file = some (file.take room, file.drop room) := by
  rw [fgets, if_neg hFilled, Nat.add_sub_cancel, splitLine_plain hPlain]

theorem fgets_newline {text : Text} (hPlain : '\n' ∉ text) {room : Nat}
    (hRoom : text.length < room) (rest : Text) :
    fgets (room + 1) (text ++ '\n' :: rest) = some (text ++ ['\n'], rest) := by
  obtain ⟨more, rfl⟩ : ∃ more, room = text.length + (more + 1) :=
    ⟨room - text.length - 1, by omega⟩
  have hTake : (text ++ '\n' :: rest).take (text.length + (more + 1)) =
      text ++ '\n' :: rest.take more := by
    rw [List.take_append, List.take_of_length_le (by omega), Nat.add_sub_cancel_left,
      List.take_succ_cons]
  have hDrop : (text ++ '\n' :: rest).drop (text.length + (more + 1)) = rest.drop more := by
    rw [List.drop_append, List.drop_eq_nil_of_le (by omega), Nat.add_sub_cancel_left,
      List.drop_succ_cons, List.nil_append]
  rw [fgets, if_neg (by simp), Nat.add_sub_cancel, hTake, hDrop,
    BufferedFile.splitLine_line hPlain]
  simp only [List.take_append_drop]

theorem fgets_first {file : Text} (hFilled : file ≠ []) (room : Nat) :
    ∃ line later rest, wholeLines file = line :: later ∧ line ≠ [] ∧ '\n' ∉ line.dropLast ∧
      fgets (room + 1) file = some (line.take room, rest) ∧
      file = line.take room ++ rest ∧
      wholeLines rest = if line.length ≤ room then later else line.drop room :: later := by
  obtain ⟨text, hPlain, rfl | ⟨rest, rfl⟩⟩ := exists_first_line hFilled
  · have hTake : '\n' ∉ file.take room := fun hMem => hPlain (List.mem_of_mem_take hMem)
    refine ⟨file, [], file.drop room, wholeLines_last hPlain hFilled, hFilled,
      fun hMem => hPlain (List.mem_of_mem_dropLast hMem), fgets_plain hFilled hTake,
      (List.take_append_drop room file).symm, ?_⟩
    split_ifs with hFits
    · rw [List.drop_eq_nil_of_le hFits]
      rfl
    · refine wholeLines_last (fun hMem => hPlain (List.mem_of_mem_drop hMem)) fun hNil => ?_
      exact hFits (List.drop_eq_nil_iff.mp hNil)
  · by_cases hFits : text.length < room
    · have hTake : (text ++ ['\n']).take room = text ++ ['\n'] :=
        List.take_of_length_le (by rw [List.length_append, List.length_singleton]; omega)
      refine ⟨text ++ ['\n'], wholeLines rest, rest, wholeLines_newline hPlain rest, by simp,
        by rwa [List.dropLast_concat], ?_, ?_, ?_⟩
      · rw [hTake]
        exact fgets_newline hPlain hFits rest
      · rw [hTake, List.append_assoc, List.singleton_append]
      · rw [if_pos (by rw [List.length_append, List.length_singleton]; omega)]
    · have hTake : (text ++ '\n' :: rest).take room = text.take room :=
        List.take_append_of_le_length (by omega)
      have hTakeLine : (text ++ ['\n']).take room = text.take room :=
        List.take_append_of_le_length (by omega)
      have hDrop : (text ++ '\n' :: rest).drop room = text.drop room ++ '\n' :: rest :=
        List.drop_append_of_le_length (by omega)
      have hDropLine : (text ++ ['\n']).drop room = text.drop room ++ ['\n'] :=
        List.drop_append_of_le_length (by omega)
      refine ⟨text ++ ['\n'], wholeLines rest, text.drop room ++ '\n' :: rest,
        wholeLines_newline hPlain rest, by simp, by rwa [List.dropLast_concat], ?_, ?_, ?_⟩
      · rw [hTakeLine, fgets_plain (by simp)
          (by rw [hTake]; exact fun hMem => hPlain (List.mem_of_mem_take hMem)), hTake, hDrop]
      · rw [hTakeLine, ← List.append_assoc, List.take_append_drop]
      · rw [if_neg (by rw [List.length_append, List.length_singleton]; omega), hDropLine,
          wholeLines_newline (fun hMem => hPlain (List.mem_of_mem_drop hMem))]

end Server
