import SchemaGraft.Source
import SchemaGraft.Text.Block
import SchemaGraft.Text.Position

/-!
# Reports

A problem with a document is shown with the places that it is about. A `Diagnosis` is what there is
to say: a title, labels on places, and perhaps advice. `Diagnosis.report` is what can be shown of it
with a given map of sources: labels whose file is not in the map are left out, the others are
grouped by file, and every file is headed by its path and a line and column.

Of titles and labels a report keeps the first line. In the text of a report their further lines
begin at the left margin, where such a line may look like the beginning of another report
(`Diagnosis.openingLines`). Advice is shown below the last file, if none of the labels there extends
over several lines.
-/

set_option autoImplicit false

namespace SchemaGraft

/-- A remark about a place. -/
structure Label where
  location : Option Location
  message : String

/-- What there is to say about a problem. -/
structure Diagnosis where
  /-- The place that the problem lies at. -/
  location : Option Location
  title : String
  labels : List Label
  advice : Option String

/-- What is shown about the places in one file. -/
structure FileReport where
  /-- The path of the file with a line and a column. -/
  heading : String
  labels : List String

/-- What is shown about a problem. -/
structure Report where
  header : String
  files : List FileReport
  advice : Option String

namespace Report

/-- What every report begins with. -/
def opening : String := "Error: "

/-- The lines of a text in a report, where a line feed follows every text. -/
def linesOf (text : String) : List String :=
  (Text.shownLines (text.toList ++ ['\n'])).map String.ofList

/-- A text up to its first line feed. -/
def cutLine (text : String) : String := (linesOf text).headD ""

/-- Whether a line looks like the beginning of a report. -/
def opens (line : String) : Bool := opening.toList.isPrefixOf line.toList

end Report

namespace Diagnosis

/-- The line and column of the place of a problem, if it lies in a file of the sources. -/
def lineColumn? (diagnosis : Diagnosis) (sources : SourceMap) : Option LineColumn := do
  let location ← diagnosis.location
  let source ← sources.get? location.file
  Text.lineColumn? source.text location.start

/-- The labels on places in the files of the sources. -/
def shownLabels (diagnosis : Diagnosis) (sources : SourceMap) : List (Location × String) :=
  diagnosis.labels.filterMap fun label =>
    match label.location with
    | some location =>
      if sources.contains location.file then some (location, label.message) else none
    | none => none

/-- The files of some places, each once, in the order of the places. -/
def filesOf : List Location → List FileId
  | [] => []
  | location :: rest => location.file :: (filesOf rest).filter (· != location.file)

/-- The place that heads the labels of a file: that of the problem if it lies in the file, and else
that of the first label. -/
def anchor? (diagnosis : Diagnosis) (file : FileId) (labels : List (Location × String)) :
    Option Location :=
  match diagnosis.location with
  | some location =>
    if location.file == file then some location else labels.head?.map (·.1)
  | none => labels.head?.map (·.1)

/-- What is shown about the places in a file. -/
def fileReport? (diagnosis : Diagnosis) (sources : SourceMap) (file : FileId) :
    Option FileReport := do
  let source ← sources.get? file
  let labels := (diagnosis.shownLabels sources).filter fun label => label.1.file == file
  let anchor ← diagnosis.anchor? file labels
  let position := Text.reportPosition source.text anchor.start
  let heading := source.path ++ ":" ++ toString position.line ++ ":" ++ toString position.column
  let messages := labels.map fun label => Report.cutLine label.2
  return ⟨heading, messages.mergeSort fun left right => decide (left ≤ right)⟩

/-- Whether a place extends over several lines of its file. -/
def spansLines (sources : SourceMap) (location : Location) : Bool :=
  (sources.get? location.file).any fun source =>
    Text.spansLines source.text location.start location.stop

/-- Whether there is room for advice below the labels on some places. -/
def hasRoomForAdvice (sources : SourceMap) (shown : List Location) : Bool :=
  match (filesOf shown).getLast? with
  | none => false
  | some file =>
    (shown.filter fun location => location.file == file).all fun location =>
      !spansLines sources location

/-- The line that a report begins with. -/
def header (diagnosis : Diagnosis) : String := Report.opening ++ Report.cutLine diagnosis.title

/-- The lines in the text of a report that look like the beginning of one: the header, and those
further lines of the title and of the labels that happen to. The first line of a label does not
begin at the margin. -/
def openingLines (diagnosis : Diagnosis) (sources : SourceMap) : List String :=
  let texts := diagnosis.title :: (diagnosis.shownLabels sources).map (·.2)
  diagnosis.header :: texts.flatMap fun text => (Report.linesOf text).tail.filter Report.opens

/-- What is shown about a problem with some sources. -/
def report (diagnosis : Diagnosis) (sources : SourceMap) : Report :=
  let shown := (diagnosis.shownLabels sources).map (·.1)
  { header := diagnosis.header
    files := (filesOf shown).filterMap (diagnosis.fileReport? sources)
    advice := diagnosis.advice.filter fun _ => hasRoomForAdvice sources shown }

end Diagnosis

end SchemaGraft
