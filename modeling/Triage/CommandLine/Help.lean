import Triage.Text

/-!
What the program says about itself.
-/

namespace Triage

namespace Help

def commands : List (String × String) :=
  [("scan <path|id>...", "Scan directories or quarantined items"),
   ("add <path>", "Copy a path into the quarantine, print its id, scan it"),
   ("list", "List quarantined and approved items"),
   ("approve <id>", "Move a quarantined item to the approved area"),
   ("reject <id>", "Delete a quarantined item"),
   ("login", "Authenticate against the threat intelligence API"),
   ("logout", "Forget the stored token"),
   ("fetch", "Refresh the cloud signature cache"),
   ("diff <path|id>", "Rescan and compare with --baseline"),
   ("config list|get KEY|set KEY VALUE", "Show or change settings")]

def options : List (String × String) :=
  [("--format text|json|sarif", "Output format (default text)"),
   ("--json", "Same as --format json"),
   ("--sarif", "Same as --format sarif"),
   ("--phases list", "Only run these phases (install_hooks,code_patterns,...)"),
   ("--min-severity SEV", "Hide findings below SEV (display only)"),
   ("--enable name[,name...]", "Only run these passes (phases,external,dependencies,cloud)"),
   ("--disable name[,name...]", "Skip these passes"),
   ("--tools list", "External scanners to try (semgrep,bandit,trufflehog)"),
   ("--timeout N", "Per external scanner timeout in seconds"),
   ("--http-timeout N", "Cloud request timeout in seconds"),
   ("--max-file-bytes N", "Skip larger files for content rules"),
   ("--ignore-file FILE", "Ignore file (default ~/.sigil/ignore)"),
   ("--parallel-threads N", "Worker threads for multiple targets"),
   ("--no-parallel", "Run passes sequentially"),
   ("--offline", "Never contact the cloud"),
   ("--no-persist", "Do not write reports under the report directory"),
   ("--api-url URL", "Threat intelligence endpoint"),
   ("--source DESC", "add: descriptor to record (default the path)"),
   ("--no-scan", "add: quarantine only"),
   ("--baseline FILE", "diff: earlier JSON report"),
   ("--email E / --password P", "login credentials (or SIGIL_PASSWORD, or prompt)"),
   ("--force", "fetch: ignore the cache"),
   ("-v, --verbose", "More logging (repeat for trace)"),
   ("-q, --quiet", "Errors only"),
   ("--version", "Print version & exit"),
   ("-h, --help", "Show this help")]

/-- A name and what it does, in two columns. -/
def entry (e : String × String) : Text :=
  let name := e.1.ascii
  "  ".ascii ++ Text.padRight (max 34 (name.length + 1)) name ++ e.2.ascii ++ [Byte.lineFeed]

def exitStatus : Text :=
  ("exit status:\n" ++
    "  scan/add: 0 CLEAN, 4 LOW, 3 MEDIUM, 2 HIGH, 1 CRITICAL\n" ++
    "  diff:     0 no new findings, 2 new findings\n" ++
    "  any error also exits 1, so 1 alone does not distinguish CRITICAL from a failure;\n" ++
    "  use --format json and read \"verdict\" when that matters.\n").ascii

def text : Text :=
  "usage: sigil [options] <command> [args]\n\ncommands:\n".ascii ++ commands.flatMap entry ++
    "\noptions:\n".ascii ++ options.flatMap entry ++ "\n".ascii ++ exitStatus

def version : Text :=
  "sigil 0.4.0 (git=unknown, compiler=GNU 0.0.0, cxx_std=17)\n".ascii

end Help

end Triage
