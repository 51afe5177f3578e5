/-! # Lines

    A line feed ends a line, together with a carriage return directly before it.
    The last line needs no line feed, and a text that ends in one has no empty
    line after it. -/

namespace ContractVM.Text

/-- The lines of a text given as characters. -/
def splitLines : List Char → List (List Char)
  | [] => []
  | '\n' :: rest => [] :: splitLines rest
  | '\r' :: '\n' :: rest => [] :: splitLines rest
  | c :: rest =>
    match splitLines rest with
    | [] => [[c]]
    | line :: lines => (c :: line) :: lines

/-- The lines of a text, without their ends. -/
def lines (text : String) : List String :=
  (splitLines text.toList).map String.ofList

theorem splitLines_nil : splitLines [] = [] := rfl

/-- A text without line breaks is one line. -/
theorem splitLines_of_noBreak {cs : List Char} (hne : cs ≠ []) (h : '\n' ∉ cs) :
    splitLines cs = [cs] := by
  fun_induction splitLines cs with
  | case1 => exact absurd rfl hne
  | case2 => simp at h
  | case3 => simp at h
  | case4 c rest _ _ hrest ih =>
    rcases rest with _ | ⟨d, rest⟩
    · rfl
    · rw [ih (by simp) (fun hm => h (List.mem_cons_of_mem _ hm))] at hrest
      simp at hrest
  | case5 c rest _ _ line lines hrest ih =>
    rcases rest with _ | ⟨d, rest⟩
    · simp [splitLines] at hrest
    · rw [ih (by simp) (fun hm => h (List.mem_cons_of_mem _ hm))] at hrest
      simp only [List.cons.injEq] at hrest
      rw [← hrest.1, ← hrest.2]

theorem lines_of_noBreak {text : String} (hne : text.toList ≠ []) (h : '\n' ∉ text.toList) :
    lines text = [text] := by
  unfold lines
  rw [splitLines_of_noBreak hne h, List.map_singleton, String.ofList_toList]

end ContractVM.Text
