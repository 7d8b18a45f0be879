import Mathlib.Data.List.Basic

/-! A header of lines that ends with an empty one, and what follows it. The end of a
line is a pair of symbols, and no line holds the first of them. -/
namespace Lines

variable {T : Type*} {cr lf x : T} {line text : List T} {ls : List (List T)}

section
variable [DecidableEq T]

/-- What stands before and after the first place of the mark. -/
def cut (mark : List T) : List T → Option (List T × List T)
  | [] => if mark = [] then some ([], []) else none
  | x :: rest =>
    if mark.isPrefixOf (x :: rest) then some ([], (x :: rest).drop mark.length)
    else (cut mark rest).map fun parts => (x :: parts.1, parts.2)

/-- The pieces between the ends of lines. -/
def lines (cr lf : T) : List T → List (List T)
  | [] => [[]]
  | [x] => [[x]]
  | x :: y :: rest =>
    if x = cr ∧ y = lf then [] :: lines cr lf rest
    else (lines cr lf (y :: rest)).modifyHead (x :: ·)

end

/-- Two ends of lines, one after the other. -/
def blank (cr lf : T) : List T := [cr, lf, cr, lf]

/-- Lines with their ends between them. -/
def unlines (cr lf : T) (ls : List (List T)) : List T := [cr, lf].intercalate ls

theorem unlines_cons (line next : List T) (ls : List (List T)) :
    unlines cr lf (line :: next :: ls) = line ++ cr :: lf :: unlines cr lf (next :: ls) := by
  simp [unlines]

theorem mem_unlines (inside : x ∈ unlines cr lf ls) : (∃ line ∈ ls, x ∈ line) ∨ x = cr ∨ x = lf := by
  induction ls with
  | nil => cases inside
  | cons line ls ih =>
    cases ls with
    | nil => exact .inl ⟨line, by simp, by simpa [unlines] using inside⟩
    | cons next ls =>
      rw [unlines_cons, List.mem_append, List.mem_cons, List.mem_cons] at inside
      rcases inside with here | first | second | later
      · exact .inl ⟨line, by simp, here⟩
      · exact .inr (.inl first)
      · exact .inr (.inr second)
      · rcases ih later with ⟨line', member, found⟩ | ends
        · exact .inl ⟨line', List.mem_cons_of_mem line member, found⟩
        · exact .inr ends

theorem unlines_head (plain : line ≠ [] ∧ cr ∉ line) (ls : List (List T)) :
    ∃ x rest, unlines cr lf (line :: ls) = x :: rest ∧ x ≠ cr := by
  obtain ⟨x, rest, rfl⟩ := List.exists_cons_of_ne_nil plain.1
  have other : x ≠ cr := (List.ne_and_not_mem_of_not_mem_cons plain.2).1.symm
  cases ls with
  | nil => exact ⟨x, rest, by simp [unlines], other⟩
  | cons next ls => exact ⟨x, _, unlines_cons (x :: rest) next ls, other⟩

variable [DecidableEq T]

/-! ## The empty line -/

theorem cut_skip (other : x ≠ cr) : cut (blank cr lf) (x :: text) =
    (cut (blank cr lf) text).map fun parts => (x :: parts.1, parts.2) := by
  simp [cut, blank, other.symm]

theorem cut_line (plain : cr ∉ line) : cut (blank cr lf) (line ++ text) =
    (cut (blank cr lf) text).map fun parts => (line ++ parts.1, parts.2) := by
  induction line with
  | nil => simp
  | cons x line ih =>
    obtain ⟨other, plain⟩ := List.ne_and_not_mem_of_not_mem_cons plain
    rw [List.cons_append, cut_skip other.symm, ih plain, Option.map_map]
    rfl

theorem cut_newline (other : x ≠ cr) (differ : lf ≠ cr) :
    cut (blank cr lf) (cr :: lf :: x :: text) =
      (cut (blank cr lf) (x :: text)).map fun parts => (cr :: lf :: parts.1, parts.2) := by
  have goes : (blank cr lf).isPrefixOf (cr :: lf :: x :: text) = false := by
    simp [blank, List.isPrefixOf, other.symm]
  rw [cut, goes, if_neg (by decide), cut_skip differ, Option.map_map]
  rfl

theorem cut_blank (body : List T) : cut (blank cr lf) (blank cr lf ++ body) = some ([], body) := by
  simp [cut, blank]

/-- The first empty line is the one behind the header, whatever follows. -/
theorem cut_unlines (some_ : ls ≠ []) (plain : ∀ line ∈ ls, line ≠ [] ∧ cr ∉ line)
    (differ : lf ≠ cr) (body : List T) :
    cut (blank cr lf) (unlines cr lf ls ++ blank cr lf ++ body) = some (unlines cr lf ls, body) := by
  induction ls with
  | nil => exact absurd rfl some_
  | cons line ls ih =>
    rw [List.forall_mem_cons] at plain
    cases ls with
    | nil => simp [unlines, cut_line plain.1.2, cut_blank]
    | cons next ls =>
      have after := ih (by simp) plain.2
      obtain ⟨x, rest, first, other⟩ := unlines_head (plain.2 next (by simp)) ls
      rw [first, List.cons_append, List.cons_append] at after
      rw [unlines_cons, first, List.append_assoc, List.append_assoc, cut_line plain.1.2]
      simp only [List.cons_append]
      rw [← List.append_assoc, cut_newline other differ, after]
      rfl

/-! ## The lines -/

theorem lines_skip (other : x ≠ cr) : lines cr lf (x :: text) =
    (lines cr lf text).modifyHead (x :: ·) := by
  cases text with
  | nil => rfl
  | cons y rest => rw [lines, if_neg fun ends => other ends.1]

theorem lines_append (plain : cr ∉ line) : lines cr lf (line ++ text) =
    (lines cr lf text).modifyHead (line ++ ·) := by
  induction line with
  | nil =>
    rw [List.nil_append]
    cases lines cr lf text <;> rfl
  | cons x line ih =>
    obtain ⟨other, plain⟩ := List.ne_and_not_mem_of_not_mem_cons plain
    rw [List.cons_append, lines_skip other.symm, ih plain, List.modifyHead_modifyHead]
    rfl

/-- Lines are read back from the text between them. -/
theorem lines_unlines (some_ : ls ≠ []) (plain : ∀ line ∈ ls, cr ∉ line) :
    lines cr lf (unlines cr lf ls) = ls := by
  induction ls with
  | nil => exact absurd rfl some_
  | cons line ls ih =>
    rw [List.forall_mem_cons] at plain
    cases ls with
    | nil =>
      have whole : lines cr lf (line ++ []) = _ := lines_append plain.1
      simpa [unlines, lines] using whole
    | cons next ls =>
      rw [unlines_cons, lines_append plain.1, lines, if_pos ⟨rfl, rfl⟩, ih (by simp) plain.2]
      simp

end Lines
