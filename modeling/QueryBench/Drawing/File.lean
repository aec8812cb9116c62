import QueryBench.Drawing.Legend
import QueryBench.Drawing.Svg
import QueryBench.FileSystem.Basic

/-!
# Drawing files

A figure is drawn into a file of its name in a directory, which is created first.
-/

namespace QueryBench

/-- Why a figure is not drawn into a file. -/
inductive RenderFault where
  | directory (path : String) (fault : FileSystem.Fault)
  | drawing (fault : DrawingFault)
  | unwritable (fault : FileSystem.Fault)
deriving DecidableEq, Repr

def RenderFault.message : RenderFault → String
  | directory path fault => s!"I/O error on '{path}': {fault.message}"
  | drawing fault => fault.message
  | unwritable fault =>
      s!"Render error: backend error: Drawing backend error: {fault.message}"

/-- A drawing and the file that holds it. -/
structure SavedDrawing where
  path : String
  elements : List Element
deriving DecidableEq, Repr

def drawingPath (directory name : String) : String := Path.join directory s!"{name}.svg"

/-- The files that are left once a figure has been drawn; directories stay where that
fails. -/
def drawInto (fs : FileSystem) (directory name : String)
    (drawing : Except DrawingFault (List Element)) :
    FileSystem × Except RenderFault SavedDrawing :=
  match fs.createDirectories directory with
  | (prepared, some fault) => (prepared, .error (.directory directory fault))
  | (prepared, none) =>
      match drawing with
      | .error fault => (prepared, .error (.drawing fault))
      | .ok elements =>
          let path := drawingPath directory name
          match prepared.write path (Bytes.ofString (Svg.text elements)) with
          | .error fault => (prepared, .error (.unwritable fault))
          | .ok fs' => (fs', .ok ⟨path, elements⟩)

def saveDrawing (fs : FileSystem) (directory name : String)
    (drawing : Except DrawingFault (List Element)) :
    Except RenderFault (FileSystem × SavedDrawing) :=
  match drawInto fs directory name drawing with
  | (_, .error fault) => .error fault
  | (fs', .ok saved) => .ok (fs', saved)

end QueryBench
