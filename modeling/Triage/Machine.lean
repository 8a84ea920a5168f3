import Triage.FileSystem.Lookup

/-!
The machine on which the program runs, and the search for programs on it.

Two searches look through the directories of the search path. The one that tells whether a program
is installed passes over empty entries; the one that starts a program by name takes an empty entry
for the working directory.
-/

namespace Triage

/-- Files and environment variables. -/
structure Machine where
  files : FileSystem
  environment : List (Text × Text)
  deriving Repr

namespace Machine

def valueOf? (m : Machine) (name : Text) : Option Text := m.environment.lookup name

def searchPath? (m : Machine) : Option Text := m.valueOf? "PATH".ascii

/-- The search path that counts when none is set. -/
def standardPath : Text := "/bin:/usr/bin".ascii

def searched (path : Text) : List Text := Text.splitOn ':'.ascii path

/-- The path of a program in a directory of the search path; an empty entry is the working
directory. -/
def candidate (name dir : Text) : Text := if dir.isEmpty then name else dir ++ Byte.slash :: name

/-- The path under which a program is installed, if it is. A name with a slash is such a path. -/
def installed? (m : Machine) (name : Text) : Option Text :=
  if name.isEmpty then none
  else if name.contains Byte.slash then if m.files.mayExecute name then some name else none
  else
    m.searchPath?.bind fun path =>
      (((searched path).filter fun dir => !dir.isEmpty).map (candidate name)).find?
        m.files.isExecutableFile

/-- The path of the file that is started for a program name, if there is one. -/
def started? (m : Machine) (name : Text) : Option Text :=
  if name.isEmpty then none
  else if name.contains Byte.slash then if m.files.isExecutableFile name then some name else none
  else
    ((searched (m.searchPath?.getD standardPath)).map (candidate name)).find?
      m.files.isExecutableFile

/-- The machine with another working directory, if there is such a directory. -/
def enter? (m : Machine) (dir : Text) : Option Machine :=
  (m.files.enter? dir).map fun files => { m with files }

end Machine

end Triage
