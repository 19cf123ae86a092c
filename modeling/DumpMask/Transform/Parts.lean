import DumpMask.Transform.Basic

/-!
# Transforms of the parts of a value

Two transforms work on the parts of a value and leave what joins them alone: one rewrites the lines
that hold a marker, the other hands each part between separators to a further transform.
-/

namespace DumpMask.Transform

/-- A line without its trailing carriage return, and whether it had one. -/
def splitReturn (line : Bytes) : Bytes × Bool :=
  if line.getLast? = some Ascii.carriageReturn then (line.dropLast, true) else (line, false)

/-- A line that holds the marker and a colon keeps what stands before the marker and its trailing
carriage return; the rest becomes the replacement. Other lines stay. -/
def maskLine (marker replacement line : Bytes) : Bytes :=
  let (body, hasReturn) := splitReturn line
  match Bytes.cutAt? (marker ++ [Ascii.colon]) body with
  | some (before, _) =>
    before ++ marker ++ [Ascii.colon, Ascii.space] ++ replacement ++
      (if hasReturn then [Ascii.carriageReturn] else [])
  | none => line

/-- Rewrites the lines of a value that hold a marker. -/
def lineField (marker replacement : Bytes) : Transform :=
  .ofFn fun value _ =>
    let lines := value.splitOn Ascii.newline
    .ok ([Ascii.newline].intercalate (lines.map (maskLine marker replacement)))

/-- Hands each part between separators to `inner`, with the length class of the part. Empty parts
stay empty. -/
def separated (separator : UInt8) (inner : Transform) (threshold : Threshold) : Transform :=
  .ofFn fun value _ => do
    let parts ← (value.splitOn separator).mapM fun part =>
      if part.isEmpty then .ok [] else inner.apply part (threshold.classify part)
    return [separator].intercalate parts

end DumpMask.Transform
