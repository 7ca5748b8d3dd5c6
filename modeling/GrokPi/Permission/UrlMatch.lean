import GrokPi.Shared.Glob

set_option autoImplicit false

namespace GrokPi.UrlMatch

inductive Host (Ipv4 Ipv6 : Type) where
  | domain (name : Text)
  | ipv4 (address : Ipv4)
  | ipv6 (address : Ipv6)
  deriving DecidableEq

inductive IpAddr (Ipv4 Ipv6 : Type) where
  | v4 (address : Ipv4)
  | v6 (address : Ipv6)
  deriving DecidableEq

structure ParsedUrl (Ipv4 Ipv6 : Type) where
  scheme : Text
  host : Option (Host Ipv4 Ipv6)
  port : Option UInt16
  path : Text

/-- The WHATWG parser of the url crate and the address syntax it shares with the library. -/
structure UrlCrate (Ipv4 Ipv6 : Type) where
  parse : Text → Option (ParsedUrl Ipv4 Ipv6)
  hostParse : Text → Option (Host Ipv4 Ipv6)
  ipv4Text : Ipv4 → Text
  ipv6Text : Ipv6 → Text
  ipv6Parse : Text → Option Ipv6
  toCanonical : Ipv6 → IpAddr Ipv4 Ipv6

def policyGlobOpts : Glob.MatchOptions :=
  { caseSensitive := false
    requireLiteralSeparator := false
    requireLiteralLeadingDot := false }

def allowPathGlobOpts : Glob.MatchOptions :=
  { caseSensitive := true
    requireLiteralSeparator := false
    requireLiteralLeadingDot := false }

def splitOnce (separator : Char) (text : Text) : Option (Text × Text) :=
  if separator ∈ text then
    some (text.takeWhile (· != separator), (text.dropWhile (· != separator)).tail)
  else none

def rsplitOnce (separator : Char) (text : Text) : Option (Text × Text) :=
  if separator ∈ text then
    some ((text.rdropWhile (· != separator)).dropLast, text.rtakeWhile (· != separator))
  else none

def trimEndDots (host : Text) : Text := host.rdropWhile (· == '.')

def digitValue (c : Char) : Nat := c.toNat - '0'.toNat

def parseU16 (text : Text) : Option UInt16 :=
  let digits := if text.head? = some '+' then text.tail else text
  if digits = [] ∨ !digits.all Char.isDigit then none
  else
    let value := digits.foldl (fun value c => 10 * value + digitValue c) 0
    if value < 2 ^ 16 then some (UInt16.ofNat value) else none

def isAscii (text : Text) : Bool := text.all (·.toNat < 128)

def isUnreserved (c : Char) : Bool := c.isAlphanum || "-._~".toList.contains c

def hexVal (c : Char) : Option Nat :=
  if c.isDigit then some (digitValue c)
  else if 'a' ≤ c ∧ c ≤ 'f' then some (c.toNat - 'a'.toNat + 10)
  else if 'A' ≤ c ∧ c ≤ 'F' then some (c.toNat - 'A'.toNat + 10)
  else none

def decodeUnreservedEscapes : Text → Text
  | '%' :: high :: low :: rest =>
      match hexVal high, hexVal low with
      | some hi, some lo =>
          let decoded := Char.ofNat (hi * 16 + lo)
          if isUnreserved decoded then decoded :: decodeUnreservedEscapes rest
          else '%' :: high.toUpper :: low.toUpper :: decodeUnreservedEscapes rest
      | _, _ => '%' :: decodeUnreservedEscapes (high :: low :: rest)
  | c :: rest => c :: decodeUnreservedEscapes rest
  | [] => []

def resolveSegment (kept : List Text) (segment : Text) : List Text :=
  if segment = ".".toList then kept
  else if segment = "..".toList then if kept.length > 1 then kept.tail else kept
  else segment :: kept

def resolvePatternDotSegments (path : Text) : Text :=
  if !path.tails.any ("/.".toList.isPrefixOf ·) then path
  else
    let segments := path.splitOn '/'
    let endsDir := segments.getLast? = some ".".toList ∨ segments.getLast? = some "..".toList
    let joined := ['/'].intercalate (segments.foldl resolveSegment []).reverse
    let joined := if joined = [] then "/".toList else joined
    if endsDir ∧ joined.getLast? ≠ some '/' then joined ++ "/".toList else joined

def needsEncoding (c : Char) : Bool :=
  c.toNat ≥ 128 || c.toNat < 0x20 || " \"#<>`\x7b\x7d".toList.contains c || c.toNat == 0x7f

def hexDigit (n : Nat) : Char := (Nat.digitChar n).toUpper

def percentEncode (c : Char) : Text :=
  (String.utf8EncodeChar c).flatMap fun byte =>
    ['%', hexDigit (byte.toNat / 16), hexDigit (byte.toNat % 16)]

def canonicalizePatternPath (path : Text) : Text :=
  let path := resolvePatternDotSegments (decodeUnreservedEscapes path)
  path.flatMap fun c => if needsEncoding c then percentEncode c else [c]

def collapseEmptySegments : Text → Text
  | '/' :: '/' :: rest => collapseEmptySegments ('/' :: rest)
  | c :: rest => c :: collapseEmptySegments rest
  | [] => []

def splitScheme (s : Text) : Option Text × Text :=
  match (List.range s.length).find? fun i => "://".toList.isPrefixOf (s.drop i) with
  | some i => (some (s.take i), s.drop (i + 3))
  | none => (none, s)

def splitAuthorityPath (s : Text) : Text × Text :=
  (s.takeWhile (· != '/'), s.dropWhile (· != '/'))

def dropUserinfo (authority : Text) : Text := authority.rtakeWhile (· != '@')

def schemeDefaultPort (scheme : Text) : Option Text :=
  if scheme = "http".toList ∨ scheme = "ws".toList then some "80".toList
  else if scheme = "https".toList ∨ scheme = "wss".toList then some "443".toList
  else none

inductive AllowScheme where
  | any
  | literal (scheme : Text)
  | never
  deriving DecidableEq

def AllowScheme.new (scheme : Text) : AllowScheme :=
  if scheme = "*".toList then .any
  else if scheme = [] ∨ scheme.any Glob.isMeta then .never
  else .literal scheme

def supportedRemoteSchemes : List Text := ["http".toList, "https".toList]

def AllowScheme.matches (scheme : AllowScheme) (runtimeScheme : Text) : Bool :=
  match scheme with
  | .any => supportedRemoteSchemes.any (Text.eqIgnoreAsciiCase · runtimeScheme)
  | .literal scheme => Text.eqIgnoreAsciiCase scheme runtimeScheme
  | .never => false

def stripPatternDefaultPort (authority scheme : Text) : Text :=
  match (schemeDefaultPort scheme).bind parseU16, rsplitOnce ':' authority with
  | some default, some (host, port) =>
      if host.getLast? = some ']' ∧ parseU16 port = some default then host else authority
  | _, _ => authority

structure RuntimeUrl (Ipv4 Ipv6 : Type) where
  scheme : Text
  host : Host Ipv4 Ipv6
  port : Option UInt16
  path : Text

section Matchers

variable {Pattern Ipv4 Ipv6 : Type} (crate : UrlCrate Ipv4 Ipv6) (glob : Glob.Crate Pattern)

def RuntimeUrl.parse (url : Text) : Option (RuntimeUrl Ipv4 Ipv6) := do
  let parsed ← crate.parse url
  let host ← parsed.host
  return { scheme := parsed.scheme
           host := host
           port := parsed.port
           path := decodeUnreservedEscapes parsed.path }

def RuntimeUrl.hostText (runtime : RuntimeUrl Ipv4 Ipv6) : Text :=
  match runtime.host with
  | .domain name => Text.lower (trimEndDots name)
  | .ipv4 address => crate.ipv4Text address
  | .ipv6 address => crate.ipv6Text address

def RuntimeUrl.authority (runtime : RuntimeUrl Ipv4 Ipv6) : Text :=
  let host :=
    match runtime.host with
    | .ipv6 address => '[' :: crate.ipv6Text address ++ "]".toList
    | _ => runtime.hostText crate
  match runtime.port with
  | some port => host ++ ':' :: Nat.toDigits 10 port.toNat
  | none => host

def canonicalizeLabel (label : Text) : Text :=
  if label.any Glob.isMeta ∨ (isAscii label ∧ '%' ∉ label) then Text.lower label
  else
    match crate.hostParse label with
    | some (.domain canonical) => canonical
    | _ => Text.lower label

def canonicalizePatternHost (host : Text) : Text :=
  let host := trimEndDots host
  if isAscii host ∧ '%' ∉ host then Text.lower host
  else ['.'].intercalate ((host.splitOn '.').map (canonicalizeLabel crate))

def isBracketedIpv6 (authority : Text) : Bool :=
  match "[".toList.isPrefixOf? authority with
  | none => false
  | some rest => (splitOnce ']' rest).any fun (address, _) => (crate.ipv6Parse address).isSome

def parseIpv6Authority (authority : Text) : Option (Ipv6 × Text) := do
  let rest ← "[".toList.isPrefixOf? authority
  let (content, port) ← splitOnce ']' rest
  let address ← crate.ipv6Parse content
  return (address, port)

def portsEqual (a b : Text) : Bool :=
  match (":".toList.isPrefixOf? a).bind parseU16, (":".toList.isPrefixOf? b).bind parseU16 with
  | some portA, some portB => portA == portB
  | _, _ => a == b

def ipv6AuthoritiesEqual [DecidableEq Ipv6] (a b : Text) : Bool :=
  match parseIpv6Authority crate a, parseIpv6Authority crate b with
  | some (addressA, portA), some (addressB, portB) => addressA = addressB && portsEqual portA portB
  | _, _ => Text.eqIgnoreAsciiCase a b

structure AllowPatternParts where
  scheme : Option Text
  authority : Text
  bracketedIpv6 : Bool
  host : Text
  port : Option Text
  path : Text

def splitAllowPattern (pattern : Text) : AllowPatternParts :=
  let (scheme, rest) := splitScheme pattern
  let (authority, path) := splitAuthorityPath rest
  let authority := dropUserinfo authority
  let bracketedIpv6 := isBracketedIpv6 crate authority
  let (host, port) :=
    if bracketedIpv6 then (authority, none)
    else
      match rsplitOnce ':' authority with
      | some (host, port) => (host, some port)
      | none => (authority, none)
  { scheme := scheme
    authority := authority
    bracketedIpv6 := bracketedIpv6
    host := host
    port := port
    path := path }

inductive AllowAuthority (Pattern : Type) where
  | bracketedIpv6 (authority : Text)
  -- No host glob grants nothing.
  | hostPort (host : Option Pattern) (port : Option Text)

inductive AllowPath (Pattern : Type) where
  | any
  | glob (pattern : Pattern)
  | never

def AllowPath.new (canonical : Text) : AllowPath Pattern :=
  if canonical = [] ∨ canonical = "/".toList then .any
  else
    match glob.new canonical with
    | some pattern => .glob pattern
    | none => .never

def AllowPath.matches (path : AllowPath Pattern) (urlPath : Text) : Bool :=
  match path with
  | .any => true
  | .glob pattern => glob.matchesWith pattern allowPathGlobOpts urlPath
  | .never => false

structure CompiledAllow (Pattern : Type) where
  scheme : AllowScheme
  authority : AllowAuthority Pattern
  path : AllowPath Pattern

def AllowUrlMatcher.new (pattern : Text) : Option (CompiledAllow Pattern) :=
  let parts := splitAllowPattern crate pattern
  parts.scheme.map fun scheme =>
    { scheme := .new scheme
      authority :=
        if parts.bracketedIpv6 then .bracketedIpv6 parts.authority
        else .hostPort (glob.new (canonicalizePatternHost crate parts.host)) parts.port
      path := .new glob (canonicalizePatternPath parts.path) }

def portMatches (port : Option Text) (scheme : Text) (runtimePort : Option UInt16) : Bool :=
  match port, runtimePort with
  | none, none => true
  | none, some _ => false
  | some text, some port => parseU16 text == some port
  | some text, none => (schemeDefaultPort scheme).any fun default => parseU16 text == parseU16 default

def AllowAuthority.matches [DecidableEq Ipv6] (authority : AllowAuthority Pattern)
    (runtime : RuntimeUrl Ipv4 Ipv6) : Bool :=
  match authority with
  | .bracketedIpv6 pattern =>
      ipv6AuthoritiesEqual crate (stripPatternDefaultPort pattern runtime.scheme)
        (runtime.authority crate)
  | .hostPort host port =>
      host.any (glob.matchesWith · policyGlobOpts (runtime.hostText crate)) &&
        portMatches port runtime.scheme runtime.port

def AllowUrlMatcher.matches [DecidableEq Ipv6] (matcher : Option (CompiledAllow Pattern)) (url : Text) :
    Bool :=
  match matcher, RuntimeUrl.parse crate url with
  | some compiled, some runtime =>
      compiled.scheme.matches runtime.scheme && compiled.authority.matches crate glob runtime &&
        compiled.path.matches glob runtime.path
  | _, _ => false

def parseIpHost (host : Text) : Option (IpAddr Ipv4 Ipv6) :=
  match crate.ipv6Parse host with
  | some address => some (crate.toCanonical address)
  | none =>
      match crate.hostParse host with
      | some (.ipv4 address) => some (.v4 address)
      | some (.ipv6 address) => some (crate.toCanonical address)
      | _ => none

def bracketIpv6 (authority : Text) : Option Text :=
  ("[".toList.isPrefixOf? authority).bind fun rest =>
    let content := rest.takeWhile (· != ']')
    if (crate.ipv6Parse content).isSome then some content else none

def ipv6BeforePort (authority : Text) : Option Text :=
  (rsplitOnce ':' authority).bind fun (beforePort, port) =>
    if port ≠ [] ∧ port.all Char.isDigit ∧ (parseU16 port).isSome ∧
        (crate.ipv6Parse beforePort).isSome then
      some beforePort
    else none

def denyHostText (authority : Text) : Text :=
  match bracketIpv6 crate authority with
  | some content => content
  | none =>
      match ipv6BeforePort crate authority with
      | some beforePort => beforePort
      | none =>
          if (crate.ipv6Parse authority).isSome then authority
          else authority.takeWhile (· != ':')

def splitHostPath (s : Text) : Option Text × Text :=
  let (authority, path) := splitAuthorityPath (splitScheme s).2
  let host := Text.lower (trimEndDots (denyHostText crate (dropUserinfo authority)))
  (if host = [] then none else some host, path)

inductive DenyHost (Pattern : Type) where
  | glob (pattern : Pattern)
  -- A broken glob still denies by literal comparison.
  | literal (canonical : Text)

inductive DenyPath (Pattern : Type) where
  | hostOnly
  | glob (pattern : Pattern)
  -- A broken glob denies every path on the host.
  | broken

structure CompiledDeny (Pattern Ipv4 Ipv6 : Type) where
  ip : Option (IpAddr Ipv4 Ipv6)
  host : DenyHost Pattern
  path : DenyPath Pattern

def DenyHost.new (canonical : Text) : DenyHost Pattern :=
  match glob.new canonical with
  | some pattern => .glob pattern
  | none => .literal canonical

def DenyPath.new (collapsed : Text) : DenyPath Pattern :=
  if collapsed = [] ∨ collapsed = "/".toList then .hostOnly
  else
    match glob.new collapsed with
    | some pattern => .glob pattern
    | none => .broken

def DenyUrlMatcher.new (pattern : Text) : Option (CompiledDeny Pattern Ipv4 Ipv6) :=
  let (host, path) := splitHostPath crate pattern
  host.map fun host =>
    { ip := parseIpHost crate host
      host := .new glob (canonicalizePatternHost crate host)
      path := .new glob (collapseEmptySegments (canonicalizePatternPath path)) }

def DenyHost.matches (host : DenyHost Pattern) (urlHost : Text) : Bool :=
  match host with
  | .glob pattern => glob.matchesWith pattern policyGlobOpts urlHost
  | .literal canonical => Text.eqIgnoreAsciiCase canonical urlHost

def CompiledDeny.hostMatches [DecidableEq Ipv4] [DecidableEq Ipv6]
    (compiled : CompiledDeny Pattern Ipv4 Ipv6) (urlHost : Text) : Bool :=
  match compiled.ip, parseIpHost crate urlHost with
  | some patternIp, some urlIp => patternIp = urlIp
  | _, _ => compiled.host.matches glob urlHost

def DenyPath.matches (path : DenyPath Pattern) (urlPath : Text) : Bool :=
  match path with
  | .hostOnly | .broken => true
  | .glob pattern => glob.matchesWith pattern policyGlobOpts (collapseEmptySegments urlPath)

def DenyUrlMatcher.matches [DecidableEq Ipv4] [DecidableEq Ipv6]
    (matcher : Option (CompiledDeny Pattern Ipv4 Ipv6)) (url : Text) : Bool :=
  match matcher, RuntimeUrl.parse crate url with
  | none, _ => false
  | some _, none => true
  | some compiled, some runtime =>
      compiled.hostMatches crate glob (runtime.hostText crate) &&
        compiled.path.matches glob runtime.path

end Matchers

end GrokPi.UrlMatch
