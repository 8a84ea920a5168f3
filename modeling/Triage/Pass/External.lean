import Triage.Pass
import Triage.Tool

/-!
The pass that runs the external tools, one after the other. What one tool does changes nothing for
the others.
-/

namespace Triage

namespace ExternalPass

def name : Text := "external".ascii

/-- The steps for one tool, and whether it counts as run. -/
def toolSteps (input : ScanInput) (t : Tool) : List PassStep × Bool :=
  if !t.available input.machine then
    let missing := t.name ++ " not found in PATH".ascii
    ([.log (.debug missing), .status t.component .notInstalled missing], false)
  else
    let outcome := t.run input.machine input.root input.config.scannerTimeout
    let degraded := outcome.state == .degraded
    ([.report (.started t.component input.now), .report (.ended t.component input.now)] ++
      (if degraded then
        [.log (.warn (t.name ++ " degraded: ".ascii ++ outcome.detail)),
         .note t.component outcome.detail]
      else []) ++
      [.found t.component outcome.findings, .status t.component outcome.state outcome.detail],
     !degraded)

def steps (input : ScanInput) (tools : List Tool) : List PassStep :=
  if tools.isEmpty then [.status name .skipped "no tools configured".ascii]
  else
    let all := tools.map (toolSteps input)
    all.flatMap Prod.fst ++
    [.status name .ran (Text.ofNat (all.countP Prod.snd) ++ " of ".ascii ++
      Text.ofNat tools.length ++ " tools ran".ascii)]

end ExternalPass

def externalPass (tools : List Tool) : Pass where
  name := ExternalPass.name
  description := "Third-party analyzers (semgrep, bandit, trufflehog)".ascii
  run input := .ofSteps (ExternalPass.steps input tools)

end Triage
