import BlockScript.Grammar.Fault
import BlockScript.Report.Ink
import BlockScript.Report.Line
import BlockScript.Run.Failure
import BlockScript.Text.Width

/-!
# Reports of source errors

A report shows a diagnostic with the lines of the source it points to.  If its span lies in
one line, the span is underlined and the message hangs below the middle of it; if it covers
several lines, the first and the last line are joined by an arrow in the margin.

The report counts characters where spans count bytes, so behind text that is not ASCII it
points further right; a span that ends past the text is shown as far as its lines exist, or
not at all.
-/

set_option autoImplicit false

namespace BlockScript

namespace Report

/-- The colours of a report. -/
structure Palette where
  head : Ink
  margin : Ink
  skippedMargin : Ink
  source : Ink
  label : Ink
  note : Ink

/-- The colours in use. -/
def palette : Palette where
  head := .red
  margin := .palette 246
  skippedMargin := .palette 240
  source := .palette 249
  label := .palette 155
  note := .palette 115

/-! ## Rows of cells -/

/-- A number of spaces. -/
def spaces (n : Nat) : String := String.ofList (List.replicate n ' ')

/-- The characters of a source line that are shown. -/
def shown (line : Line) : List Char := trimEnd line.chars

/-- How many columns of the screen a column of a source line takes. -/
def columnWidth (line : Line) (col : Nat) : Nat :=
  match (shown line)[col]? with
  | some c => (shownAt col c).2
  | none => 1

/-- A row below a source line: `cell` gives what is drawn first in a column and what fills
the rest of a wide column. -/
def row (line : Line) (count : Nat) (cell : Nat → String × String) : String :=
  String.join <| (List.range count).map fun col =>
    let (first, tail) := cell col
    match columnWidth line col with
    | 0 => ""
    | width + 1 => first ++ String.join (List.replicate width tail)

/-- A cell with nothing in it. -/
def emptyCell : String × String := (" ", " ")

/-! ## Settings -/

/-- What a report is about, and how it is drawn. -/
structure Setting where
  colored : Bool
  message : String
  span : Span
  /-- The width of the column of line numbers. -/
  numberWidth : Nat

namespace Setting

variable (r : Setting)

/-- Whether a character belongs to the span. -/
def covers (offset : Nat) : Bool := r.span.start ≤ offset && offset < r.span.stop

/-- A text in the colour of the label, each character by itself. -/
def label (text : String) : String := palette.label.writeEach r.colored text

/-! ## Margins -/

/-- The margin of a source line. -/
def numberMargin (line : Line) : String :=
  let number := toString (line.index + 1)
  let padded := spaces (r.numberWidth - number.length) ++ number
  " " ++ palette.margin.write r.colored (padded ++ " │") ++ " "

/-- The margin of a line that is not from the source, drawn with `edge`. -/
def emptyMargin (edge : String) : String :=
  " " ++ palette.skippedMargin.write r.colored (spaces (r.numberWidth + 1) ++ edge) ++ " "

/-- The margin below a source line. -/
def bar : String := r.emptyMargin "│"

/-- The margin where source lines are left out. -/
def gap : String := r.emptyMargin "┆"

/-! ## Source lines -/

/-- The text of a source line, the characters of the span in the colour of the label. -/
def sourceText (line : Line) : String :=
  String.join <| (shown line).mapIdx fun col c =>
    let ink := if r.covers (line.offset + col) then palette.label else palette.source
    let (c, width) := shownAt col c
    let cell := ink.write r.colored (String.singleton c)
    if isBlank c then String.join (List.replicate width cell) else cell

/-- A cell of the label, drawn and filled with the given characters. -/
def labelCell (first tail : String) : String × String := (r.label first, r.label tail)

/-! ## Labels -/

/-- A label within one line. -/
def labelInLine (line : Line) : List String :=
  if line.offset + line.chars.length < r.span.stop then [r.bar]
  else
    let count := r.span.stop - line.offset + 2
    let center := max ((r.span.start + r.span.stop) / 2) r.span.start - line.offset
    let underline := row line count fun col =>
      if col = center then
        if r.covers (line.offset + col) then r.labelCell "┬" "─" else r.labelCell "│" " "
      else if r.covers (line.offset + col) then r.labelCell "─" "─"
      else emptyCell
    let hook := row line count fun col =>
      if col = center then r.labelCell "╰" "─"
      else if center < col then r.labelCell "─" "─"
      else emptyCell
    [r.numberMargin line ++ r.sourceText line, r.bar ++ underline,
      r.bar ++ hook ++ " " ++ r.message]

/-- A label from the line `first` to the line `last` of a text of `size` characters. -/
def labelAcross (size : Nat) (first last : Line) : List String :=
  let ended := r.span.stop - 1 < size
  let opening := [r.numberMargin first ++ r.label "╭─▶ " ++ r.sourceText first]
  let skipped :=
    if 1 < last.index - first.index || !ended then [r.gap ++ r.label "┆" ++ spaces 3] else []
  let closing :=
    if ended then
      let count := last.chars.length + 2
      [r.numberMargin last ++ r.label "├─▶ " ++ r.sourceText last,
        r.bar ++ r.label "│" ++ spaces 3 ++ row last count fun _ => emptyCell,
        r.bar ++ r.label "╰───" ++ (row last count fun _ => r.labelCell "─" "─") ++ " " ++
          r.message]
    else []
  opening ++ skipped ++ closing

/-- The lines that show the help. -/
def helpLines (lines : List Line) (oneLine : Bool) (help : String) : List String :=
  let joint :=
    if oneLine then ""
    else if (lines.head?.map fun line => line.chars.length) = some r.span.start then
      r.label "│" ++ spaces 3
    else spaces 4
  [r.bar ++ joint, r.bar ++ joint ++ palette.note.write r.colored "Help" ++ ": " ++ help]

end Setting

/-- The first line of a report. -/
def head (colored : Bool) (d : Diagnostic) : String :=
  palette.head.write colored s!"[{d.code}] Error:" ++ " " ++ d.message

/-- The lines of a report below the first one, for a span from the line `first` to the line
`last`. -/
def body (colored : Bool) (text : List Char) (d : Diagnostic) (first last : Line) :
    List String :=
  let r : Setting := ⟨colored, d.message, d.span, (toString (last.index + 1)).length⟩
  let indent := spaces (r.numberWidth + 2)
  let column := d.span.start - first.offset + 1
  let title := indent ++ palette.margin.writeEach colored "╭─[" ++
    s!" <input>:{first.index + 1}:{column} " ++ palette.margin.write colored "]"
  let oneLine := first.index = last.index
  let label := if oneLine then r.labelInLine first else r.labelAcross text.length first last
  let help := match d.help with
    | some help => r.helpLines (Line.all text) oneLine help
    | none => []
  let foot := String.ofList (List.replicate (r.numberWidth + 2) '─') ++ "╯"
  [title, indent ++ palette.margin.write colored "│"] ++ label ++ help ++
    [palette.margin.write colored foot]

/-- The report of a diagnostic about a source text. -/
def ofDiagnostic (colored : Bool) (source : String) (d : Diagnostic) : String :=
  let text := source.toList
  let first := Line.at? text d.span.start
  let last := if d.span.stop ≤ d.span.start then first else Line.at? text (d.span.stop - 1)
  let below := match first, last with
    | some first, some last => body colored text d first last
    | _, _ => []
  String.join ((head colored d :: below).map (· ++ "\n"))

end Report

/-- The report of a failure.  Evaluation errors have no place in the source and take one
line. -/
def Failure.report (colored : Bool) (source : String) : Failure → String
  | .source error => Report.ofDiagnostic colored source error.diagnostic
  | .evaluation error => s!"Error[{error.code}]: {error.message}\n"

end BlockScript
