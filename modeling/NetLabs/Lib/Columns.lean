import Mathlib.Data.List.DropRight

/-!
# Lines and columns

A text of lines that a separator ends is taken apart into its lines (`linesOf_flatMap`), and a field that has been padded
to the width of its column is the field again, up to the padding that it ended in itself (`unpad_append_replicate`).
-/

namespace Columns

variable {α : Type*} [DecidableEq α] {blank newline : α} {s t line : List α} {lines : List (List α)} {n : Nat}

/-- A field without the blanks at its end. -/
def unpad (blank : α) (s : List α) : List α := s.rdropWhile (· = blank)

/-- The lines of a text, each of which the separator ends. -/
def linesOf (newline : α) (text : List α) : List (List α) := (text.splitOnP (· = newline)).dropLast

theorem unpad_append_replicate (s : List α) (n : Nat) : unpad blank (s ++ List.replicate n blank) = unpad blank s := by
  induction n with
  | zero => rw [List.replicate_zero, List.append_nil]
  | succ n ih =>
    rw [List.replicate_succ', ← List.append_assoc]
    exact (List.rdropWhile_concat_pos _ _ _ (by simp)).trans ih

omit [DecidableEq α] in
/-- What is behind a column of a known width and the blank that ends it. -/
theorem drop_column (h : s.length = n) (b : α) (t : List α) : (s ++ b :: t).drop (n + 1) = t := by
  rw [List.append_cons]
  exact List.drop_left' (by rw [List.length_append, h, List.length_singleton])

theorem splitOnP_flatMap (h : ∀ line ∈ lines, newline ∉ line) :
    (lines.flatMap fun line => line ++ [newline]).splitOnP (· = newline) = lines ++ [[]] := by
  induction lines with
  | nil => rfl
  | cons line lines ih =>
    rw [List.forall_mem_cons] at h
    have hline : ∀ b ∈ line, decide (b = newline) = false := by
      rintro b hb
      simp only [decide_eq_false_iff_not]
      rintro rfl
      exact h.1 hb
    rw [List.flatMap_cons, List.append_assoc, List.singleton_append,
      List.splitOnP_append_cons_of_forall_mem hline newline (by simp), ih h.2]
    rfl

theorem linesOf_flatMap (h : ∀ line ∈ lines, newline ∉ line) :
    linesOf newline (lines.flatMap fun line => line ++ [newline]) = lines := by
  rw [linesOf, splitOnP_flatMap h, List.dropLast_concat]

end Columns
