import BlockScript.Console.Program
import BlockScript.Proofs.OneLine

/-!
# One line for each row of a table

A table is answered by one line for each of its rows, in order, whatever its cells hold: the printed
lines, read as rows of a text again, are the answers to the rows (`one_line_for_each_row`).

The cells of a row may be programs that never end, so the statement is about rows whose cells end
one after the other (`Batch.RowEnds`).  These have an answer, the same on every budget that is large
enough (`Batch.Answers`).
-/

set_option autoImplicit false

namespace BlockScript

/-- More budget does not change the result of a run. -/
theorem Interpreter.run_budget {budget more : Nat} (le : budget ≤ more) {i : Interpreter}
    {source : String} {out : Except Failure Value × Interpreter}
    (gives : i.run budget source = some out) : i.run more source = some out := by
  rw [run] at gives ⊢
  cases parsed : parse source with
  | error e => simpa only [parsed] using gives
  | ok tree =>
      simp only [parsed, evaluateTree, evaluateIn] at gives ⊢
      generalize i.adopt (fun _ => none) tree = adopted at gives ⊢
      obtain ⟨node, j⟩ := adopted
      cases outcome : evaluate j.limit budget node j.root ⟨j.store, 0⟩ with
      | none => simp [outcome] at gives
      | some result =>
          simp only [outcome] at gives
          simpa only [evaluate_budget le node j.root outcome] using gives

namespace Batch

variable {limit : Nat}

/-! ## Cells -/

/-- The text of a cell is on one line, and so are the values that it leaves behind. -/
theorem oneLine_runCell {budget column : Nat} {i j : Interpreter} {cell : List Char} {text : String}
    (stored : lineDiscipline.Stored i.store)
    (gives : runCell budget i column cell = some (text, j)) :
    OneLine text ∧ lineDiscipline.Stored j.store := by
  unfold runCell at gives
  split at gives
  · cases gives
    exact ⟨.append (by decide) (oneLine_nat _), stored⟩
  · split at gives
    · cases gives
      exact ⟨by decide, stored⟩
    · split at gives
      · cases gives
      · rename_i letter _ _ value k ran
        cases gives
        obtain ⟨stored', good, -⟩ := Interpreter.RunEnds.oneLine ⟨budget, ran⟩ stored
        exact ⟨(good value rfl).text, stored'.bind (good value rfl) _ _⟩
      · rename_i e k ran
        cases gives
        obtain ⟨stored', -, good⟩ := Interpreter.RunEnds.oneLine ⟨budget, ran⟩ stored
        exact ⟨.append (by decide) (good e rfl), stored'⟩

theorem runCell_budget {budget more column : Nat} (le : budget ≤ more) {i : Interpreter}
    {cell : List Char} {out : String × Interpreter}
    (gives : runCell budget i column cell = some out) : runCell more i column cell = some out := by
  unfold runCell at gives ⊢
  split at gives
  · exact gives
  · split at gives
    · rename_i blank
      rwa [if_pos blank]
    · rename_i solid
      rw [if_neg solid]
      cases ran : i.run budget (String.ofList cell) with
      | none => simp [ran] at gives
      | some result => simpa only [ran, i.run_budget le ran] using gives

/-- The runs of the cells from a column on end, each in the interpreter that the cells before it
have left. -/
def CellsEnd (i : Interpreter) : (column : Nat) → List (List Char) → Prop
  | _, [] => True
  | column, cell :: rest => ∃ budget text j, runCell budget i column cell = some (text, j) ∧
      CellsEnd j (column + 1) rest

/-- Cells whose runs end have texts, each on one line. -/
theorem CellsEnd.exists_texts : ∀ {cells : List (List Char)} {column : Nat} {i : Interpreter},
    CellsEnd i column cells → lineDiscipline.Stored i.store → ∃ texts budget,
      (∀ more, budget ≤ more → runCells more i column cells = some texts) ∧ ∀ t ∈ texts, OneLine t
  | [], _, _, _, _ => ⟨[], 0, fun _ _ => rfl, nofun⟩
  | cell :: rest, column, i, ⟨budget, text, j, gives, further⟩, stored => by
      obtain ⟨here, stored'⟩ := oneLine_runCell stored gives
      obtain ⟨texts, budget', given, all⟩ := further.exists_texts stored'
      refine ⟨text :: texts, max budget budget', fun more le => ?_,
        List.forall_mem_cons.mpr ⟨here, all⟩⟩
      have first := runCell_budget (le_trans (le_max_left ..) le) gives
      have second := given more (le_trans (le_max_right ..) le)
      simp [runCells, first, second]

theorem cellsEnd_of_runCells {budget : Nat} : ∀ {cells : List (List Char)} {column : Nat}
    {i : Interpreter} {texts : List String}, runCells budget i column cells = some texts →
    CellsEnd i column cells
  | [], _, _, _, _ => trivial
  | cell :: rest, column, i, texts, gives => by
      simp only [runCells, bind, Option.bind_eq_some_iff] at gives
      obtain ⟨⟨text, j⟩, first, texts', second, -⟩ := gives
      exact ⟨budget, text, j, first, cellsEnd_of_runCells second⟩

/-! ## Rows -/

/-- The runs of the cells of a row end. -/
def RowEnds (limit : Nat) (row : List Char) : Prop :=
  CellsEnd (.fresh limit) 0 (splitAtMark '\t' row)

/-- A line is the answer to a row on every budget that is large enough. -/
def Answers (limit index : Nat) (row : List Char) (line : String) : Prop :=
  ∃ budget, ∀ more, budget ≤ more → runRow more limit index row = some line

theorem rowEnds_of_runRow {budget index : Nat} {row : List Char} {line : String}
    (gives : runRow budget limit index row = some line) : RowEnds limit row := by
  simp only [runRow, bind, Option.bind_eq_some_iff] at gives
  obtain ⟨texts, gives, -⟩ := gives
  exact cellsEnd_of_runCells gives

/-- **The answer to a row is on one line.** -/
theorem RowEnds.exists_line {row : List Char} (ends : RowEnds limit row) (index : Nat) :
    ∃ line, Answers limit index row line ∧ OneLine line := by
  obtain ⟨texts, budget, given, all⟩ := ends.exists_texts (lineDiscipline.stored_fresh limit)
  refine ⟨s!"{index}," ++ ",".intercalate texts, ⟨budget, fun more le => ?_⟩, ?_⟩
  · simp only [runRow, given more le]
    rfl
  · exact .append (.append (oneLine_nat index) (by decide)) (.intercalate (by decide) all)

/-- The lines that answer rows from an index on. -/
theorem exists_lines : ∀ {rows : List (List Char)} (index : Nat),
    (∀ row ∈ rows, RowEnds limit row) →
    ∃ lines budget, (∀ more, budget ≤ more → runRows more limit index rows = some lines) ∧
      lines.length = rows.length ∧ (∀ line ∈ lines, OneLine line) ∧
      ∀ k row, rows[k]? = some row → ∃ line, lines[k]? = some line ∧
        Answers limit (index + k) row line
  | [], _, _ => ⟨[], 0, fun _ _ => rfl, rfl, nofun, by simp⟩
  | row :: rows, index, ends => by
      obtain ⟨here, further⟩ := List.forall_mem_cons.mp ends
      obtain ⟨line, ⟨budget, answers⟩, single⟩ := here.exists_line index
      obtain ⟨lines, budget', given, size, all, each⟩ := exists_lines (index + 1) further
      refine ⟨line :: lines, max budget budget', fun more le => ?_, by simp [size],
        List.forall_mem_cons.mpr ⟨single, all⟩, fun k row' found => ?_⟩
      · have first := answers more (le_trans (le_max_left ..) le)
        have second := given more (le_trans (le_max_right ..) le)
        simp [runRows, first, second]
      · cases k with
        | zero =>
            obtain rfl : row = row' := by simpa using found
            exact ⟨line, rfl, budget, answers⟩
        | succ k =>
            obtain ⟨line', found', answers'⟩ := each k row' (by simpa using found)
            rw [Nat.add_right_comm, Nat.add_assoc] at answers'
            exact ⟨line', by simpa using found', answers'⟩

end Batch

/-! ## Printed lines -/

theorem textRows_line {line : List Char} (single : ∀ x ∈ line, x ≠ '\n' ∧ x ≠ '\r')
    (rest : List Char) : textRows (line ++ '\n' :: rest) = line :: textRows rest := by
  induction line with
  | nil => rfl
  | cons x line ih =>
      obtain ⟨⟨feed, carriage⟩, further⟩ := List.forall_mem_cons.mp single
      have inner : rows '\n' '\r' (line ++ '\n' :: rest) = line :: textRows rest := ih further
      simp [textRows, rows, feed, carriage, inner, prependToRow]

/-- Lines that are printed are the rows of what is printed. -/
theorem textRows_join {lines : List String} (single : ∀ line ∈ lines, OneLine line) :
    textRows (String.join (lines.map (· ++ "\n"))).toList = lines.map String.toList := by
  induction lines with
  | nil => rfl
  | cons line lines ih =>
      obtain ⟨here, further⟩ := List.forall_mem_cons.mp single
      have feed : "\n".toList = ['\n'] := rfl
      rw [List.map_cons, String.join_cons, String.toList_append, String.toList_append, feed,
        List.append_assoc, List.singleton_append, textRows_line here, ih further, List.map_cons]

open Batch in
/-- **A table is answered by one line for each row.**  If the runs of the cells of a row end, the
row has an answer, and there is no line feed and no carriage return in it.  So if this holds of all
rows of a table, the command prints as many lines as there are rows, and the lines are the answers
to the rows in order. -/
theorem one_line_for_each_row (limit : Nat) :
    (∀ index row, RowEnds limit row →
      ∃ line, Answers limit index row line ∧ '\n' ∉ line.toList ∧ '\r' ∉ line.toList) ∧
    ∀ table : String, (∀ row ∈ textRows table.toList, RowEnds limit row) →
      ∃ lines printed budget, lines.length = (textRows table.toList).length ∧
        (∀ k row, (textRows table.toList)[k]? = some row →
          ∃ line, lines[k]? = some line ∧ Answers limit k row line) ∧
        textRows printed.toList = lines.map String.toList ∧
        ∀ more, budget ≤ more → Batch.run more limit table = some lines ∧
          ∀ readFile input file threads options, readFile file = some table →
            options.maxDepth = limit →
            Console.perform more readFile input (.run (.batch file threads) options) =
              some ⟨0, ⟨printed, ""⟩⟩ := by
  refine ⟨fun index row ends => ?_, fun table ends => ?_⟩
  · obtain ⟨line, answers, single⟩ := ends.exists_line index
    exact ⟨line, answers, fun feed => (single _ feed).1 rfl,
      fun carriage => (single _ carriage).2 rfl⟩
  · obtain ⟨lines, budget, given, size, single, each⟩ := exists_lines 0 ends
    simp only [Nat.zero_add] at each
    refine ⟨lines, _, budget, size, each, textRows_join single, fun more le => ⟨given more le, ?_⟩⟩
    rintro readFile input file threads options found rfl
    have ran : Batch.run more options.maxDepth table = some lines := given more le
    simp only [Console.perform, found, ran]
    rfl

open Batch in
/-- Carriage returns inside cells, a block, a source error and an evaluation error. -/
theorem one_line_for_each_row_carriages :
    (∀ row ∈ textRows "a =\r1\t\x7b|x| x\x7d\tA +\r$\n\t2 /\r0\t".toList, RowEnds 256 row) ∧
    ∃ (lines : List String) (printed : String) (budget : Nat), lines.length = 2 ∧
      textRows printed.toList = lines.map String.toList ∧ ∀ more, budget ≤ more →
        Batch.run more 256 "a =\r1\t\x7b|x| x\x7d\tA +\r$\n\t2 /\r0\t" = some lines := by
  have cut : textRows "a =\r1\t\x7b|x| x\x7d\tA +\r$\n\t2 /\r0\t".toList =
      ["a =\r1\t\x7b|x| x\x7d\tA +\r$".toList, "\t2 /\r0\t".toList] := by
    decide +kernel
  have first : runRow 40 256 0 "a =\r1\t\x7b|x| x\x7d\tA +\r$".toList =
      some "0,1,\x7b |x| … \x7d,#ERROR: Expected expression, literal or identifier, found '$'" := by
    decide +kernel
  have second : runRow 40 256 1 "\t2 /\r0\t".toList =
      some "1,nil,#ERROR: Division by zero,nil" := by
    decide +kernel
  have ends : ∀ row ∈ textRows "a =\r1\t\x7b|x| x\x7d\tA +\r$\n\t2 /\r0\t".toList,
      RowEnds 256 row := by
    rw [cut]
    exact List.forall_mem_cons.mpr ⟨rowEnds_of_runRow first,
      List.forall_mem_singleton.mpr (rowEnds_of_runRow second)⟩
  obtain ⟨lines, printed, budget, size, -, shown, given⟩ := (one_line_for_each_row 256).2 _ ends
  refine ⟨ends, lines, printed, budget, ?_, shown, fun more le => (given more le).1⟩
  rw [size, cut]
  rfl

end BlockScript
