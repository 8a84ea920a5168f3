import Triage.Rule
import Triage.Regex.Match

/-!
Searching the lines of a file with line rules.

A long line is searched in windows of `windowSize` bytes, each of which shares `windowOverlap`
bytes with the next; a match that is longer than the overlap and crosses the end of a window is
not seen. A finding quotes the line, from shortly before the match if the line is long.
-/

namespace Triage

namespace LineRule

/-! ## One line -/

/-- The largest stretch of a line that is searched at once. -/
def windowSize : Nat := 16384

/-- What two neighbouring windows share. -/
def windowOverlap : Nat := 1024

/-- The distance from the start of one window to the start of the next. -/
def windowStep : Nat := windowSize - windowOverlap

/-- Searches what is left of a line from `offset` on, window by window; `previous` is the byte of
the line before it. -/
def searchFrom (regex : Regex) (previous : Option UInt8) (offset : Nat) (rest : Text) : Option Nat :=
  match regex.search previous (windowSize < rest.length) (rest.take windowSize) with
  | some i => some (offset + i)
  | none =>
    if _h : windowSize < rest.length then
      searchFrom regex rest[windowStep - 1]? (offset + windowStep) (rest.drop windowStep)
    else none
termination_by rest.length
decreasing_by simp only [windowSize, windowStep, windowOverlap, List.length_drop] at *; omega

/-- The offset of a match of the expression in a line, if a window shows one. -/
def searchLine (regex : Regex) (line : Text) : Option Nat := searchFrom regex none 0 line

/-! ## Quoting a line -/

def maxSnippet : Nat := 200

/-- How far before the match the quotation of a long line starts. -/
def snippetLead : Nat := 40

/-- The line without blanks at its ends, cut if it is long. -/
def quotation (line : Text) : Text :=
  let text := Text.trim line
  if maxSnippet < text.length then text.take (Text.charFloor text maxSnippet) ++ " ...".ascii
  else text

/-- A description, if there is one, followed by the quoted line. -/
def snippet (description line : Text) : Text :=
  if description.isEmpty then quotation line
  else description ++ ": ".ascii ++ quotation line

/-- The part of a line that a match at offset `hit` is quoted from. -/
def quotedFrom (line : Text) (hit : Nat) : Text :=
  if maxSnippet < line.length && snippetLead < hit then
    line.drop (Text.charFloor line (hit - snippetLead))
  else line

/-! ## All lines -/

/-- How the rule is described in findings; rules from the cloud are marked. -/
def label (r : LineRule) : Text :=
  if r.source == "cloud".ascii then "[cloud] ".ascii ++ r.description else r.description

def findIn (r : LineRule) (path : Text) (number : Nat) (line : Text) : Option Finding :=
  (searchLine r.regex line).map fun hit =>
    { phase := r.phase, rule := r.id, source := r.source, severity := r.severity, file := path
      line := some number, snippet := snippet r.label (quotedFrom line hit), weight := r.weight }

/-- The rules of the selected phases that cover the path. -/
def applicable (rules : List LineRule) (phases : List Phase) (path : Text) : List LineRule :=
  rules.filter fun r => Phase.selected phases r.phase && r.scope.covers path

/-- The findings of the rules in a file, line by line and rule by rule; lines count from one. -/
def findAll (rules : List LineRule) (phases : List Phase) (path contents : Text) : List Finding :=
  let rules := applicable rules phases path
  if rules.isEmpty then []
  else ((Text.lines contents).zipIdx 1).flatMap fun (line, number) =>
    rules.filterMap fun r => r.findIn path number line

end LineRule

end Triage
