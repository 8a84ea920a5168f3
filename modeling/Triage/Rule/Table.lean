import Triage.Rule

/-!
The table of the built-in rules, in the order in which they are applied.
-/

namespace Triage

namespace RuleTable

/-- The version of the table, which every report records. -/
def version : Nat := 3

/-- Lines that match a pattern. -/
def exactly (pattern : String) : RuleKind := .lines pattern.ascii false

/-- Lines that match a pattern in any mixture of cases. -/
def anyCase (pattern : String) : RuleKind := .lines pattern.ascii true

/-- A rule of the phases pass that searches lines. -/
def inPhase (phase : Phase) (severity : Severity) (scope : FileScope) (id description : String)
    (lines : RuleKind) : Rule :=
  ⟨id.ascii, phase, severity, phase.weight, description.ascii, lines, .phase, scope⟩

/-- A rule of the dependency pass that searches lines for a permission. -/
def permission (severity : Severity) (scope : FileScope) (id description : String)
    (lines : RuleKind) : Rule :=
  ⟨id.ascii, .credentials, severity, Phase.credentials.weight, description.ascii, lines,
   .dependency, scope⟩

/-- A rule with a check of its own. -/
def structural (severity : Severity) (weight : Nat) (group : RuleGroup) (scope : FileScope)
    (id description : String) : Rule :=
  ⟨id.ascii, .provenance, severity, weight, description.ascii, .structural, group, scope⟩

/-- Install hooks: code that runs as a side effect of installing a package. -/
def installHooks : List Rule :=
  [inPhase .installHooks .critical .setupScript "INSTALL-001"
     "setup.py cmdclass override (runs at install time)"
     (exactly "cmdclass"),
   inPhase .installHooks .critical .setupScript "INSTALL-002"
     "setup.py custom install hook"
     (anyCase "(pre_install|post_install|install_scripts)"),
   inPhase .installHooks .critical .packageJson "INSTALL-003"
     "npm lifecycle script (runs automatically on install)"
     (exactly "\"(preinstall|postinstall|preuninstall|postuninstall)\""),
   inPhase .installHooks .high .packageJson "INSTALL-004"
     "npm publish lifecycle script"
     (exactly "\"(prepare|prepublish|prepublishOnly)\""),
   inPhase .installHooks .medium .makefile "INSTALL-005"
     "Makefile install target"
     (exactly "^install\\s*:"),
   inPhase .installHooks .low .makefile "INSTALL-006"
     "Makefile install phony target"
     (exactly "^\\.(PHONY|ONESHELL).*install"),
   inPhase .installHooks .critical .pyproject "INSTALL-007"
     "pyproject.toml cmdclass override"
     (exactly "\\[tool\\.setuptools\\.cmdclass\\]"),
   inPhase .installHooks .low .pyproject "INSTALL-008"
     "Custom build backend declared"
     (exactly "build-backend\\s*="),
   inPhase .installHooks .medium .any "INSTALL-MCP-001"
     "MCP configuration file referenced"
     (exactly "claude_desktop_config|mcp_config\\.json|\\.mcp\\.json"),
   inPhase .installHooks .low .any "INSTALL-MCP-002"
     "MCP server registry entry"
     (exactly "mcpServers|mcp_servers")]

/-- Code patterns: ways of running code that is not in the file. -/
def codePatterns : List Rule :=
  [inPhase .codePatterns .high .any "CODE-001"
     "eval() call, arbitrary code execution"
     (exactly "\\beval\\s*\\("),
   inPhase .codePatterns .high .any "CODE-002"
     "exec() call, arbitrary code execution"
     (exactly "\\bexec\\s*\\("),
   inPhase .codePatterns .medium .any "CODE-003"
     "compile() call, dynamic code compilation"
     (exactly "\\bcompile\\s*\\("),
   inPhase .codePatterns .critical .any "CODE-004"
     "pickle deserialization"
     (exactly "pickle\\.(loads?|Unpickler)"),
   inPhase .codePatterns .high .any "CODE-005"
     "marshal deserialization"
     (exactly "marshal\\.loads?"),
   inPhase .codePatterns .high .any "CODE-006"
     "YAML unsafe load"
     (exactly "yaml\\.(unsafe_)?load\\s*\\("),
   inPhase .codePatterns .high .any "CODE-007"
     "child_process usage, command execution"
     (exactly "\\bchild_process\\b"),
   inPhase .codePatterns .high .any "CODE-008"
     "Function constructor, dynamic code execution"
     (exactly "\\bFunction\\s*\\("),
   inPhase .codePatterns .high .any "CODE-009"
     "new Function(), dynamic code execution"
     (exactly "new\\s+Function\\s*\\("),
   inPhase .codePatterns .high .any "CODE-010"
     "__import__() dynamic import"
     (exactly "__import__\\s*\\("),
   inPhase .codePatterns .medium .any "CODE-011"
     "importlib.import_module dynamic import"
     (exactly "importlib\\.import_module\\s*\\("),
   inPhase .codePatterns .medium .any "CODE-012"
     "require() with a computed module name"
     (exactly "require\\s*\\(\\s*[^'\"\\s]"),
   inPhase .codePatterns .medium .any "CODE-013"
     "subprocess invocation"
     (exactly "subprocess\\.(call|run|Popen|check_output)\\s*\\("),
   inPhase .codePatterns .high .any "CODE-014"
     "os command execution"
     (exactly "os\\.(system|popen|exec[lv]?[pe]?)\\s*\\("),
   inPhase .codePatterns .high .any "CODE-015"
     "shell=True, shell injection risk"
     (exactly "shell\\s*=\\s*True"),
   inPhase .codePatterns .medium .any "CODE-MCP-001"
     "MCP server creation"
     (exactly "mcp[_-]?server|MCPServer|create_mcp_server"),
   inPhase .codePatterns .medium .any "CODE-MCP-002"
     "MCP tool execution"
     (exactly "tool_call|execute_tool|run_tool"),
   inPhase .codePatterns .high .any "CODE-MCP-003"
     "MCP permission bypass"
     (exactly "allow_dangerous|skip_confirmation|auto_approve.*true")]

/-- Network use, and sending data away. -/
def networkExfil : List Rule :=
  [inPhase .networkExfil .medium .any "NET-001"
     "HTTP request via requests"
     (exactly "requests\\.(get|post|put|delete|patch|head)\\s*\\("),
   inPhase .networkExfil .medium .any "NET-002"
     "HTTP request via urllib"
     (exactly "urllib\\.(request\\.)?urlopen\\s*\\("),
   inPhase .networkExfil .medium .any "NET-003"
     "HTTP client connection"
     (exactly "http\\.client\\.HTTP"),
   inPhase .networkExfil .medium .any "NET-004"
     "fetch() to external URL"
     (exactly "fetch\\s*\\(\\s*['\"]https?://"),
   inPhase .networkExfil .medium .any "NET-005"
     "HTTP request via axios"
     (exactly "axios\\.(get|post|put|delete|patch)\\s*\\("),
   inPhase .networkExfil .high .any "NET-006"
     "Webhook or callback URL"
     (anyCase "(webhook|callback|notify).*https?://"),
   inPhase .networkExfil .critical .any "NET-007"
     "Known exfiltration or tunneling service URL"
     (exactly "https?://\\S*\\.(ngrok|pipedream|requestbin|hookbin)"),
   inPhase .networkExfil .high .any "NET-008"
     "Raw socket creation"
     (exactly "socket\\.socket\\s*\\("),
   inPhase .networkExfil .medium .any "NET-009"
     "Socket connect to literal address"
     (exactly "\\.connect\\s*\\(\\s*\\(?\\s*['\"]"),
   inPhase .networkExfil .medium .any "NET-010"
     "DNS resolution, possible DNS exfiltration"
     (exactly "dns\\.(resolver|query)|getaddrinfo"),
   inPhase .networkExfil .high .any "NET-011"
     "Encoding local data before sending"
     (exactly "(base64|b64)(encode|\\.b64encode)\\s*\\(.*\\.(read|getenv|environ)"),
   inPhase .networkExfil .medium .any "NET-012"
     "curl/wget command"
     (exactly "(curl|wget)\\s+.*https?://"),
   inPhase .networkExfil .low .any "NET-MCP-001"
     "MCP transport configuration"
     (exactly "stdio_transport|sse_transport|StreamableHTTPTransport"),
   inPhase .networkExfil .high .any "NET-MCP-002"
     "MCP proxy configuration"
     (exactly "mcp.*proxy|proxy.*mcp")]

/-- Credentials in a file, and places where credentials are kept. -/
def credentials : List Rule :=
  [inPhase .credentials .high .any "CRED-001"
     "Environment read of a sensitive key"
     (exactly "os\\.(environ|getenv)\\s*[\\[\\(]\\s*['\"](AWS_|SECRET_|API_KEY|TOKEN|PASSWORD|DATABASE_URL|PRIVATE)"),
   inPhase .credentials .high .any "CRED-002"
     "process.env read of a sensitive key"
     (exactly "process\\.env\\.(AWS_|SECRET_|API_KEY|TOKEN|PASSWORD|DATABASE_URL|PRIVATE)"),
   inPhase .credentials .critical .any "CRED-003"
     "AWS credentials file access"
     (exactly "\\.aws/(credentials|config)"),
   inPhase .credentials .critical .any "CRED-004"
     "Hardcoded AWS access key id"
     (exactly "AKIA[0-9A-Z]\x7b16\x7d"),
   inPhase .credentials .critical .any "CRED-005"
     "SSH key file access"
     (exactly "\\.ssh/(id_rsa|id_ed25519|id_ecdsa|authorized_keys)"),
   inPhase .credentials .critical .any "CRED-006"
     "Embedded private key"
     (exactly "-----BEGIN (RSA |EC |OPENSSH )?PRIVATE KEY-----"),
   inPhase .credentials .high .any "CRED-007"
     "Hardcoded API key or secret"
     (anyCase "(api[_-]?key|api[_-]?secret|access[_-]?token)\\s*[:=]\\s*['\"][a-zA-Z0-9]\x7b16,\x7d"),
   inPhase .credentials .high .any "CRED-008"
     "Hardcoded password"
     (anyCase "(password|passwd|pwd)\\s*[:=]\\s*['\"][^'\"]\x7b8,\x7d"),
   inPhase .credentials .critical .any "CRED-009"
     "GCP service account key"
     (exactly "\"type\"\\s*:\\s*\"service_account\""),
   inPhase .credentials .critical .any "CRED-010"
     "GitHub access token"
     (exactly "gh[pousr]_[A-Za-z0-9_]\x7b36,\x7d"),
   inPhase .credentials .high .any "CRED-011"
     "Authorization or bearer token"
     (anyCase "(bearer|authorization)\\s*[:=]\\s*['\"][a-zA-Z0-9._-]\x7b20,\x7d"),
   inPhase .credentials .medium .any "CRED-MCP-001"
     "MCP credential reference"
     (exactly "MCP_API_KEY|MCP_SECRET|MCP_TOKEN|mcp_auth")]

/-- Obfuscation: text that hides what it does. -/
def obfuscation : List Rule :=
  [inPhase .obfuscation .high .any "OBFUSC-001"
     "Base64 decoding"
     (exactly "base64\\.(b64)?decode\\s*\\("),
   inPhase .obfuscation .high .any "OBFUSC-002"
     "atob() base64 decoding"
     (exactly "atob\\s*\\("),
   inPhase .obfuscation .high .any "OBFUSC-003"
     "Buffer.from base64 decoding"
     (exactly "Buffer\\.from\\s*\\([^)]*,\\s*['\"]base64['\"]"),
   inPhase .obfuscation .high .any "OBFUSC-004"
     "String.fromCharCode construction"
     (exactly "String\\.fromCharCode\\s*\\("),
   inPhase .obfuscation .medium .any "OBFUSC-005"
     "chr() character code construction"
     (exactly "chr\\s*\\(\\s*\\d+\\s*\\)"),
   inPhase .obfuscation .high .any "OBFUSC-006"
     "Long hex-escaped string"
     (exactly "\\\\x[0-9a-fA-F]\x7b2\x7d(\\\\x[0-9a-fA-F]\x7b2\x7d)\x7b7,\x7d"),
   inPhase .obfuscation .high .any "OBFUSC-007"
     "Hex byte array"
     (exactly "0x[0-9a-fA-F]\x7b2\x7d\\s*,\\s*(0x[0-9a-fA-F]\x7b2\x7d\\s*(,\\s*)?)\x7b7,\x7d"),
   inPhase .obfuscation .medium .any "OBFUSC-008"
     "Long unicode escape sequence"
     (exactly "\\\\u[0-9a-fA-F]\x7b4\x7d(\\\\u[0-9a-fA-F]\x7b4\x7d)\x7b5,\x7d"),
   inPhase .obfuscation .medium .any "OBFUSC-009"
     "codecs decode/encode"
     (exactly "codecs\\.(decode|encode)\\s*\\("),
   inPhase .obfuscation .medium .any "OBFUSC-010"
     "ROT13 or cipher text transform"
     (anyCase "(rot13|rot_13|caesar|cipher)\\s*[(.]"),
   inPhase .obfuscation .medium .any "OBFUSC-011"
     "Inline decompression"
     (exactly "(zlib|gzip)\\.(decompress|inflate)\\s*\\("),
   inPhase .obfuscation .high .any "OBFUSC-MCP-001"
     "Obfuscated MCP tool definition"
     (exactly "tool_description.*base64|encoded_tool|obfuscated_prompt")]

def hiddenFile : Rule := structural .low 1 .phase .any "PROV-001" "Hidden file"

/-- A compiled file outside the directories for such files. -/
def misplacedBinary : Rule :=
  structural .medium 2 .phase .any "PROV-002" "Binary file in unexpected location"

/-- A file name that suggests an attack. -/
def suspiciousName : Rule := structural .high 3 .phase .any "PROV-003" "Suspicious file name"

def largeFile : Rule := structural .low 1 .phase .any "PROV-004" "Large file"

/-- Version control data without the full history. -/
def shallowClone : Rule :=
  structural .low 1 .phase .any "PROV-005" "Shallow clone, limited git history"

/-- A package without version control data. -/
def missingHistory : Rule :=
  structural .medium 2 .phase .any "PROV-006" "No VCS metadata for a package"

/-- Where the files come from and whether they belong there. -/
def provenance : List Rule :=
  [hiddenFile, misplacedBinary, suspiciousName, largeFile, shallowClone, missingHistory]

def unpinnedDependency : Rule :=
  structural .low 1 .dependency .manifest "DEP-001" "Unpinned dependency version"

/-- A container that is given a capability as good as root. -/
def addedCapability : Rule :=
  permission .high .container "PERM-002" "Container granted ALL or SYS_ADMIN capability"
    (exactly "(cap_add|--cap-add)\\s*[:=]?\\s*\\[?\\s*['\"]?(ALL|SYS_ADMIN)\\b")

/-- Dependencies and the permissions that containers, workflows and agents are given. -/
def dependencies : List Rule :=
  [unpinnedDependency,
   permission .high .container "PERM-001"
     "Privileged container"
     (anyCase "privileged\\s*:\\s*['\"]?true|--privileged\\b"),
   addedCapability,
   permission .high .container "PERM-003"
     "Host namespace or docker socket exposed to container"
     (exactly "network_mode\\s*:\\s*['\"]?host|\\bpid\\s*:\\s*['\"]?host|--(net|network|pid)[= ]host\\b|/var/run/docker\\.sock"),
   permission .high .workflow "PERM-004"
     "Workflow echoes or pipes a secret"
     (exactly "(echo|printf)\\b.*\\$\\\x7b\\\x7b\\s*secrets\\.|\\$\\\x7b\\\x7b\\s*secrets\\.[^\x7d]*\\\x7d\\\x7d.*\\|"),
   permission .medium .workflow "PERM-005"
     "Workflow triggered by pull_request_target"
     (exactly "\\bpull_request_target\\b"),
   permission .medium .workflow "PERM-006"
     "Workflow grants write-all permissions"
     (exactly "permissions\\s*:\\s*write-all"),
   permission .high .agentConfig "PERM-007"
     "Agent tool config grants wildcard permission"
     (exactly "\"\\*\"|Bash\\(\\*\\)"),
   permission .high .agentConfig "PERM-008"
     "Agent tool config auto-approves tool calls"
     (exactly "\"(autoApprove|auto_approve|alwaysAllow|always_allow|dangerouslySkipPermissions|skipPermissions)\"\\s*:\\s*(true|\\[\\s*\")|\"defaultMode\"\\s*:\\s*\"bypassPermissions\"")]

end RuleTable

def ruleTable : List Rule :=
  RuleTable.installHooks ++ RuleTable.codePatterns ++ RuleTable.networkExfil ++
    RuleTable.credentials ++ RuleTable.obfuscation ++ RuleTable.provenance ++
    RuleTable.dependencies

namespace RuleTable

/-- The line rules of a group, in table order. -/
def lineRules (group : RuleGroup) : List LineRule :=
  (ruleTable.filter fun r => r.group == group).filterMap Rule.lineRule?

def phaseRules : List LineRule := lineRules .phase

def dependencyRules : List LineRule := lineRules .dependency

def find? (id : Text) : Option Rule := ruleTable.find? fun r => r.id == id

end RuleTable

end Triage
