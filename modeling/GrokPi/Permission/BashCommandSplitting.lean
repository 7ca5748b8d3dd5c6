import GrokPi.Shared.Peeling
import GrokPi.Shared.Text

set_option autoImplicit false

namespace GrokPi.BashCommandSplitting

abbrev Words := List Text

def basename (word : Text) : Text := word.rtakeWhile fun c => c != '/' && c != '\\'

def programName (words : Words) : Option Text := words.head?.map basename

def isOption (tok : Text) : Bool := tok.head? == some '-'

def isLongOption (tok : Text) : Bool := "--".toList.isPrefixOf tok

def isNameStart (c : Char) : Bool := c.isAlpha || c == '_'

def isNameChar (c : Char) : Bool := c.isAlphanum || c == '_'

def isEnvAssignment (tok : Text) : Bool :=
  tok.contains '=' &&
    let name := tok.takeWhile (· != '=')
    name.head?.any isNameStart && name.all isNameChar

def quoteChars : Text := "'\"".toList

def decodeShellLiteralFrom : Option Char → Text → Option Text
  | quote, [] => if quote.isNone then some [] else none
  | quote, c :: rest =>
      if quote = none ∧ c ∈ quoteChars then decodeShellLiteralFrom (some c) rest
      else if quote = some c then decodeShellLiteralFrom none rest
      else if c = '\\' ∧ quote = none then
        match rest with
        | [] => none
        | next :: rest => (decodeShellLiteralFrom none rest).map (next :: ·)
      else if c = '\\' ∧ quote = some '"' then
        match rest with
        | [] => none
        | next :: rest =>
            let decoded := decodeShellLiteralFrom quote rest
            if next ∈ "$`\"\\\n".toList then decoded.map (next :: ·)
            else decoded.map fun tail => c :: next :: tail
      -- Single-quoted text is literal, including backslashes.
      else (decodeShellLiteralFrom quote rest).map (c :: ·)

def decodeShellLiteralSpelling (raw : Text) : Option Text := decodeShellLiteralFrom none raw

def decodeEnvOptionToken (raw : Text) : Text :=
  if raw.any (quoteChars.contains ·) then
    -- Unclosed quotes: keep raw so flag detection can still Ask.
    (decodeShellLiteralSpelling raw).getD raw
  else raw

def isHighConfidenceEnvSPayload (payload : Text) : Bool :=
  !payload.isEmpty && !payload.contains '\x00' && !payload.any ("'\"\\#`$\n\r".toList.contains ·)

def takeHighConfidencePayload (raw : Text) : Option Text :=
  if isHighConfidenceEnvSPayload raw then some raw else none

inductive EnvShort where
  | splitStringNext
  | splitStringGlued (payload : Text)
  | splitStringDetect
  | noArg
  | argNeedNext (kind : Char)
  | argGlued (kind : Char)
  | uncertain
  deriving DecidableEq

def classifyEnvCluster : Text → EnvShort
  | [] => .noArg
  | c :: rest =>
      if c ∈ "iv0".toList then classifyEnvCluster rest
      else if c = 'S' then .splitStringDetect
      else if c ∈ "uCPa".toList then if rest.isEmpty then .argNeedNext c else .argGlued c
      else .uncertain

def classifyEnvShort (tok : Text) : EnvShort :=
  if !isOption tok || isLongOption tok || tok == "-".toList then .uncertain
  else
    let body := tok.tail
    match "S".toList.isPrefixOf? body with
    | some [] => .splitStringNext
    | some payload => .splitStringGlued payload
    | none => classifyEnvCluster body

structure EnvScan where
  chdir : Option Text
  -- `env -S` rewrites argv; never peel past it.
  hasSplitString : Bool
  optionsUncertain : Bool
  splitStringScript : Option Text
  commandStart : Nat
  deriving DecidableEq

def EnvScan.skip (scan : EnvScan) (count : Nat) : EnvScan :=
  { scan with commandStart := scan.commandStart + count }

def EnvScan.uncertain (scan : EnvScan) : EnvScan := { scan with optionsUncertain := true }

def EnvScan.split (scan : EnvScan) (payload : Option Text) : EnvScan :=
  { scan with
    hasSplitString := true, splitStringScript := payload.bind takeHighConfidencePayload }

def envScanFrom (scan : EnvScan) : Words → EnvScan
  | [] => scan
  | tok :: rest =>
      if tok = "--".toList then scan.skip 1
      -- Bare `-` is a synonym for `-i`.
      else if tok = "-".toList then envScanFrom (scan.skip 1) rest
      else if !isOption tok then
        if isEnvAssignment tok then envScanFrom (scan.skip 1) rest else scan
      else if isLongOption tok then
        if tok = "--chdir".toList then
          match rest with
          | dir :: rest => envScanFrom { scan.skip 2 with chdir := some dir } rest
          | [] => scan.uncertain
        else match "--chdir=".toList.isPrefixOf? tok with
        | some dir => envScanFrom { scan.skip 1 with chdir := some dir } rest
        | none =>
            if tok ∈ ["--unset".toList, "--path".toList, "--argv0".toList] then
              match rest with
              | _ :: rest => envScanFrom (scan.skip 2) rest
              | [] => scan.uncertain
            else if ["--unset=".toList, "--path=".toList, "--argv0=".toList].any (·.isPrefixOf tok) then
              envScanFrom (scan.skip 1) rest
            else if tok ∈ ["--ignore-environment".toList, "--null".toList, "--debug".toList,
                "--version".toList, "--help".toList] then
              envScanFrom (scan.skip 1) rest
            else if tok = "--split-string".toList then scan.split rest.head?
            else match "--split-string=".toList.isPrefixOf? tok with
            | some payload =>
                let decoded := "--split-string=".toList.isPrefixOf? (decodeEnvOptionToken tok)
                scan.split (some (decoded.getD payload))
            -- An unknown long option may take a value and hide a later `-S`.
            | none => scan.uncertain
      else
        match classifyEnvShort (decodeEnvOptionToken tok) with
        | .splitStringNext => scan.split rest.head?
        | .splitStringGlued payload => scan.split (some payload)
        | .splitStringDetect => scan.split none
        | .noArg => envScanFrom (scan.skip 1) rest
        | .argNeedNext kind =>
            match rest with
            | operand :: rest =>
                envScanFrom
                  { scan.skip 2 with chdir := if kind = 'C' then some operand else scan.chdir } rest
            | [] => scan.uncertain
        | .argGlued kind =>
            let dir := ("-C".toList.isPrefixOf? tok).getD []
            envScanFrom { scan.skip 1 with chdir := if kind = 'C' then some dir else scan.chdir } rest
        | .uncertain => scan.uncertain

def envScan (cmd : Words) : EnvScan :=
  envScanFrom
    { chdir := none
      hasSplitString := false
      optionsUncertain := false
      splitStringScript := none
      commandStart := 1 }
    (cmd.drop 1)

def envSplitStringScript (words : Words) : Option Text :=
  if programName words ≠ some "env".toList then none
  else
    let scan := envScan words
    if scan.hasSplitString then scan.splitStringScript else none

def skipOptions (withValue : List Text) : Words → Words
  | [] => []
  | tok :: rest =>
      if isOption tok then
        if tok ∈ withValue then
          match rest with
          | [] => []
          | _ :: rest => skipOptions withValue rest
        else skipOptions withValue rest
      else tok :: rest

def nonEmpty (words : Words) : Option Words := if words.isEmpty then none else some words

def stripWrapperCommand (cmd : Words) : Option Words :=
  match cmd with
  | [] => none
  | word :: args =>
      let head := basename word
      if head = "timeout".toList then
        -- The mandatory duration goes with the options.
        nonEmpty (skipOptions ["-k".toList, "-s".toList, "--kill-after".toList, "--signal".toList] args).tail
      else if head = "nice".toList then
        nonEmpty (skipOptions ["-n".toList, "--adjustment".toList] args)
      else if head = "ionice".toList then
        nonEmpty (skipOptions ["-c".toList, "-n".toList, "-p".toList, "-P".toList, "-u".toList,
          "--class".toList, "--classdata".toList, "--pid".toList, "--pgid".toList, "--uid".toList] args)
      else if head = "chrt".toList then
        nonEmpty (skipOptions [] args).tail
      else if head = "stdbuf".toList then
        nonEmpty (skipOptions ["-i".toList, "-o".toList, "-e".toList] args)
      else if head = "env".toList then
        let scan := envScan cmd
        -- Split-string rewrites argv; uncertain option arity can hide it.
        if scan.hasSplitString || scan.optionsUncertain then none
        else nonEmpty (cmd.drop scan.commandStart)
      else none

def wrapperNames : List Text :=
  ["timeout".toList, "nice".toList, "ionice".toList, "chrt".toList, "stdbuf".toList, "env".toList]

def isWrapperCommand (words : Words) : Bool :=
  (programName words).any (wrapperNames.contains ·)

def maxWrapperDepth : Nat := 8

def maxInlineShellDepth : Nat := 8

structure CheckedWrapperPeel where
  words : Words
  hasChdir : Bool
  hasSplitString : Bool
  envOptionsUncertain : Bool
  exhausted : Bool
  deriving DecidableEq

def CheckedWrapperPeel.scanned (peel : CheckedWrapperPeel) : CheckedWrapperPeel :=
  if programName peel.words = some "env".toList then
    let scan := envScan peel.words
    { peel with
      hasChdir := peel.hasChdir || scan.chdir.isSome
      hasSplitString := peel.hasSplitString || scan.hasSplitString
      envOptionsUncertain := peel.envOptionsUncertain || scan.optionsUncertain }
  else peel

def unwrapWrappersFrom : Nat → CheckedWrapperPeel → CheckedWrapperPeel
  | 0, peel =>
      { peel with
        exhausted := isWrapperCommand peel.words && (stripWrapperCommand peel.words).isSome }
  | budget + 1, peel =>
      match stripWrapperCommand peel.words with
      | some inner => unwrapWrappersFrom budget { peel.scanned with words := inner }
      | none => peel.scanned

def unwrapWrappersChecked (words : Words) : CheckedWrapperPeel :=
  unwrapWrappersFrom maxWrapperDepth
    { words := words
      hasChdir := false
      hasSplitString := false
      envOptionsUncertain := false
      exhausted := false }

inductive TransparentStrip where
  | notPrefix
  | peeled (inner : Words)
  | ambiguous
  deriving DecidableEq

def TransparentStrip.remaining (inner : Words) : TransparentStrip :=
  if inner.isEmpty then .notPrefix else .peeled inner

def nulWord : Text := ['\x00']

def stripExecOptions : Words → TransparentStrip
  | [] => .notPrefix
  | tok :: rest =>
      if tok = "--".toList then .remaining rest
      else if tok = "-".toList ∨ !isOption tok then .peeled (tok :: rest)
      else if tok ∈ ["-c".toList, "-l".toList, "-cl".toList, "-lc".toList] then stripExecOptions rest
      else if tok = "-a".toList then
        match rest with
        | [] => .ambiguous
        | value :: rest =>
            if value ≠ nulWord ∧ value ≠ [] then stripExecOptions rest else .ambiguous
      else if "-a".toList.isPrefixOf tok then
        if tok.drop 2 = nulWord then .ambiguous else stripExecOptions rest
      else if !isLongOption tok && tok.tail.all ("cl".toList.contains ·) then stripExecOptions rest
      else .ambiguous

def stripExecPrefix (cmd : Words) : TransparentStrip := stripExecOptions cmd.tail

def stripCommandOptions : Words → TransparentStrip
  | [] => .notPrefix
  | tok :: rest =>
      if tok = "--".toList then .remaining rest
      else if tok = "-".toList ∨ !isOption tok then .peeled (tok :: rest)
      else if tok ∈ ["-v".toList, "-V".toList, "--help".toList, "--version".toList] ∨
          !isLongOption tok && tok.tail.any ("vV".toList.contains ·) then
        -- Display mode is not an execute peel.
        .notPrefix
      else if tok = "-p".toList ∨ !isLongOption tok && tok.tail.all (· == 'p') then
        stripCommandOptions rest
      else .ambiguous

def stripCommandPrefix (cmd : Words) : TransparentStrip := stripCommandOptions cmd.tail

def stripBuiltinPrefix (cmd : Words) : TransparentStrip :=
  match cmd.tail with
  | [] => .notPrefix
  | tok :: rest =>
      if isOption tok && tok != "-".toList then .ambiguous else .remaining (tok :: rest)

def stripTransparentPrefix (cmd : Words) : TransparentStrip :=
  match cmd with
  | [] => .notPrefix
  | word :: _ =>
      if word = [] ∨ word = nulWord then .notPrefix
      else if basename word = "exec".toList then stripExecPrefix cmd
      else if basename word = "command".toList then stripCommandPrefix cmd
      else if basename word = "builtin".toList then stripBuiltinPrefix cmd
      else .notPrefix

inductive TransparentPrefixPeel where
  | ready (words : Words)
  | ambiguous
  deriving DecidableEq

def maxTransparentPrefixDepth : Nat := 8

def maxNormalizeRounds : Nat := maxWrapperDepth + maxTransparentPrefixDepth

def peelTransparentFrom : Nat → Words → TransparentPrefixPeel
  -- Mirrors wrapper exhaustion: a remaining peelable prefix is not modeled.
  | 0, current => if stripTransparentPrefix current = .notPrefix then .ready current else .ambiguous
  | budget + 1, current =>
      match stripTransparentPrefix current with
      | .notPrefix => .ready current
      | .peeled inner => peelTransparentFrom budget inner
      | .ambiguous => .ambiguous

def peelTransparentPrefixes (words : Words) : TransparentPrefixPeel :=
  peelTransparentFrom maxTransparentPrefixDepth words

structure NormalizedCommandPeel where
  words : Words
  hasChdir : Bool
  hasSplitString : Bool
  envOptionsUncertain : Bool
  exhausted : Bool
  ambiguous : Bool
  deriving DecidableEq

def NormalizedCommandPeel.unwrapped (peel : NormalizedCommandPeel) : NormalizedCommandPeel :=
  let wrapped := unwrapWrappersChecked peel.words
  { peel with
    words := wrapped.words
    hasChdir := peel.hasChdir || wrapped.hasChdir
    hasSplitString := peel.hasSplitString || wrapped.hasSplitString
    envOptionsUncertain := peel.envOptionsUncertain || wrapped.envOptionsUncertain
    exhausted := peel.exhausted || wrapped.exhausted }

def normalizeRounds : Nat → NormalizedCommandPeel → NormalizedCommandPeel
  | 0, peel => peel
  | rounds + 1, peel =>
      let wrapped := peel.unwrapped
      -- Opaque pack or uncertain env options: do not peel further.
      if wrapped.hasSplitString || wrapped.envOptionsUncertain then wrapped
      else
        match peelTransparentPrefixes wrapped.words with
        | .ambiguous => { wrapped with ambiguous := true }
        | .ready inner =>
            -- Both slices end with the argv, so equal lengths are equal slices.
            if inner.length = peel.words.length then { wrapped with words := inner }
            else normalizeRounds rounds { wrapped with words := inner }

def NormalizedCommandPeel.start (words : Words) : NormalizedCommandPeel :=
  { words := words
    hasChdir := false
    hasSplitString := false
    envOptionsUncertain := false
    exhausted := false
    ambiguous := false }

/-- A head that is still peelable after the budget is not modeled, so fail closed. -/
def NormalizedCommandPeel.checked (peel : NormalizedCommandPeel) : NormalizedCommandPeel :=
  if !peel.ambiguous && !peel.hasSplitString && !peel.envOptionsUncertain then
    let stillWrapper := isWrapperCommand peel.words && (stripWrapperCommand peel.words).isSome
    let stillTransparent := stripTransparentPrefix peel.words != .notPrefix
    if stillWrapper || stillTransparent then { peel with exhausted := true } else peel
  else peel

def normalizeCommandWords (words : Words) : NormalizedCommandPeel :=
  (normalizeRounds maxNormalizeRounds (.start words)).checked

example : (normalizeCommandWords
    ["timeout".toList, "30".toList, "exec".toList, "nice".toList, "rm".toList, "-rf".toList]).words =
      ["rm".toList, "-rf".toList] := by decide

end GrokPi.BashCommandSplitting
