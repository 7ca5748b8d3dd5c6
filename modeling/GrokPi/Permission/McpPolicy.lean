import GrokPi.Permission.DenyCovers

set_option autoImplicit false

namespace GrokPi.McpPolicy

open UrlMatch

inductive PolicySubjectOrigin where
  | grokNative
  | foreign
  deriving DecidableEq

inductive PolicySourceAuthority where
  | native
  | advisory
  deriving DecidableEq

inductive PolicyLayerOwnership where
  | admin
  | user
  deriving DecidableEq

def PolicyLayerOwnership.acceptsGrantFrom (ownership grant : PolicyLayerOwnership) : Bool :=
  ownership = .user || grant = .admin

inductive AllowedMcpServer where
  | http (urlPattern : Text)
  | stdio (command : Text)
  | stdioArgv (argv : List Text)
  | name (name : Text)
  deriving DecidableEq

inductive McpServer where
  | http (name url : Text)
  | sse (name url : Text)
  | stdio (name command : Text) (args : List Text)
  -- A transport of a later protocol version.
  | other
  deriving DecidableEq

def mcpServerName : McpServer → Text
  | .http name _ | .sse name _ | .stdio name _ _ => name
  | .other => []

def serverUrl : McpServer → Option Text
  | .http _ url | .sse _ url => some url
  | .stdio .. | .other => none

def argvMatches (argv : List Text) (command : Text) (args : List Text) : Bool :=
  match argv with
  | [] => false
  | first :: rest => first == command && rest == args

def managedMcpPrefix : Text := "grok_com_".toList

def managedMcpNameMaxChars : Nat := 39

/-- The entry that comes out of a constructor carries the matcher compiled from it. -/
structure CompiledEntry {Matcher : Type} (compile : Text → Matcher) where
  entry : AllowedMcpServer
  urlMatcher : Option Matcher
  compiled : urlMatcher = match entry with
    | .http urlPattern => some (compile urlPattern)
    | _ => none

def compileEntries {Matcher : Type} (compile : Text → Matcher) (entries : List AllowedMcpServer) :
    List (CompiledEntry compile) :=
  entries.map fun entry => ⟨entry, _, rfl⟩

/-- Whether an entry restricts the transport; one that is not known is restricted by every entry. -/
def mcpEntryRestricts (entry : AllowedMcpServer) (server : McpServer) : Bool :=
  match entry, server with
  | _, .other => true
  | .name _, _ => true
  | .http _, .http .. | .http _, .sse .. => true
  | .http _, .stdio .. => false
  | .stdio _, .stdio .. | .stdioArgv _, .stdio .. => true
  | .stdio _, _ | .stdioArgv _, _ => false

structure Externals (Pattern Ipv4 Ipv6 : Type) where
  url : UrlCrate Ipv4 Ipv6
  glob : Glob.Crate Pattern
  toLowercase : Text → Text

section Sources

variable {Pattern Ipv4 Ipv6 : Type} (deps : Externals Pattern Ipv4 Ipv6)

def normalizeManagedName (bare : Text) : Text :=
  (deps.toLowercase bare).map fun c => if c = ' ' then '_' else c

def nameKey (name : Text) : Text :=
  normalizeManagedName deps ((managedMcpPrefix.isPrefixOf? name).getD name)

def truncateKey (key : Text) : Text :=
  let maxBare := managedMcpNameMaxChars - managedMcpPrefix.length
  if maxBare < key.length then key.take maxBare else key

def mcpNameMatches (pattern name : Text) : Bool :=
  let patternKey := nameKey deps pattern
  let nameKey := nameKey deps name
  -- Only the runtime name that was cut at the cap is compared with a cut pattern.
  let (patternKey, nameKey) :=
    if managedMcpPrefix.isPrefixOf name && name.length == managedMcpNameMaxChars then
      (truncateKey patternKey, truncateKey nameKey)
    else (patternKey, nameKey)
  !patternKey.isEmpty && patternKey == nameKey

def mcpEntryMatches (entry : AllowedMcpServer) (server : McpServer) : Bool :=
  match entry, server with
  | .name name, _ => mcpNameMatches deps name (mcpServerName server)
  | .stdio command, .stdio _ serverCommand _ => command == serverCommand
  | .stdioArgv argv, .stdio _ serverCommand args => argvMatches argv serverCommand args
  | _, _ => false

structure McpServerAllowlist where
  entries : List (CompiledEntry (AllowUrlMatcher.new deps.url deps.glob))
  denyEntries : List (CompiledEntry (DenyUrlMatcher.new deps.url deps.glob))
  managedOnly : Bool
  lockdown : Bool
  ownership : PolicyLayerOwnership
  authority : PolicySourceAuthority

structure McpServerPolicy where
  sources : List (McpServerAllowlist deps)

variable {deps}

def McpServerAllowlist.new (entries denyEntries : List AllowedMcpServer) : McpServerAllowlist deps :=
  { entries := compileEntries _ entries
    denyEntries := compileEntries _ denyEntries
    managedOnly := false
    lockdown := false
    ownership := .user
    authority := .native }

def McpServerAllowlist.withManagedOnly (source : McpServerAllowlist deps) : McpServerAllowlist deps :=
  { source with managedOnly := true }

def McpServerAllowlist.withLockdown (source : McpServerAllowlist deps) : McpServerAllowlist deps :=
  { source with lockdown := true }

def McpServerAllowlist.binds (source : McpServerAllowlist deps) (origin : PolicySubjectOrigin) : Bool :=
  source.authority = .native || origin = .foreign

def McpServerAllowlist.isRestricted (source : McpServerAllowlist deps) : Bool :=
  source.lockdown || source.managedOnly || !source.entries.isEmpty || !source.denyEntries.isEmpty

variable [DecidableEq Ipv4] [DecidableEq Ipv6]

def McpServerAllowlist.matchesAllowEntry (source : McpServerAllowlist deps) (server : McpServer) : Bool :=
  source.entries.any fun compiled =>
    match compiled.urlMatcher with
    | some matcher => (serverUrl server).any (AllowUrlMatcher.matches deps.url deps.glob matcher)
    | none => mcpEntryMatches deps compiled.entry server

def McpServerAllowlist.isServerDenied (source : McpServerAllowlist deps) (server : McpServer) : Bool :=
  source.denyEntries.any fun compiled =>
    match compiled.urlMatcher with
    | some matcher => (serverUrl server).any (DenyUrlMatcher.matches deps.url deps.glob matcher)
    | none => mcpEntryMatches deps compiled.entry server

def McpServerAllowlist.allowsIgnoringManagedOnly (source : McpServerAllowlist deps)
    (server : McpServer) : Bool :=
  if source.lockdown then false
  else if !source.isRestricted then true
  else
    let restricted := source.entries.any fun compiled => mcpEntryRestricts compiled.entry server
    !restricted || source.matchesAllowEntry server

namespace McpServerPolicy

variable (policy : McpServerPolicy deps) (server : McpServer) (origin : PolicySubjectOrigin)

def bindingSources : List (McpServerAllowlist deps) := policy.sources.filter (·.binds origin)

def denyingSource : Option (McpServerAllowlist deps) :=
  (policy.bindingSources origin).find? (·.isServerDenied server)

def isServerDenied : Bool := (policy.denyingSource server origin).isSome

def grantsException (restrictionOwnership : PolicyLayerOwnership) : Bool :=
  policy.sources.any fun source =>
    restrictionOwnership.acceptsGrantFrom source.ownership && source.matchesAllowEntry server

def blockingAllowSource : Option (McpServerAllowlist deps) :=
  ((policy.bindingSources origin).find? fun source =>
      source.managedOnly && !policy.grantsException server source.ownership).or
    ((policy.bindingSources origin).find? fun source => !source.allowsIgnoringManagedOnly server)

def isServerAllowed : Bool :=
  !policy.isServerDenied server origin && (policy.blockingAllowSource server origin).isNone

end McpServerPolicy

section Restrictions

variable {server : McpServer} {origin : PolicySubjectOrigin}

/-- The other source has the same grants and at least the restrictions. -/
structure McpServerAllowlist.TightenedBy (source other : McpServerAllowlist deps) : Prop where
  entries : other.entries = source.entries
  ownership : other.ownership = source.ownership
  authority : other.authority = source.authority
  denyEntries : source.denyEntries ⊆ other.denyEntries
  managedOnly : source.managedOnly = true → other.managedOnly = true
  lockdown : source.lockdown = true → other.lockdown = true

structure McpServerPolicy.Passes (policy : McpServerPolicy deps) (server : McpServer)
    (source : McpServerAllowlist deps) : Prop where
  undenied : source.isServerDenied server = false
  granted : source.managedOnly = true → policy.grantsException server source.ownership = true
  allows : source.allowsIgnoringManagedOnly server = true

theorem isServerAllowed_iff (policy : McpServerPolicy deps) :
    policy.isServerAllowed server origin = true ↔
      ∀ source ∈ policy.sources, source.binds origin = true → policy.Passes server source := by
  simp only [McpServerPolicy.isServerAllowed, McpServerPolicy.isServerDenied,
    McpServerPolicy.denyingSource, McpServerPolicy.blockingAllowSource,
    McpServerPolicy.bindingSources, Bool.and_eq_true, Bool.not_eq_true', Option.isSome_eq_false_iff,
    Option.isNone_iff_eq_none, Option.or_eq_none_iff, List.find?_eq_none, List.mem_filter]
  constructor
  · rintro ⟨undenied, granted, allows⟩ source member binds
    have here := And.intro member binds
    refine ⟨by simpa using undenied source here, ?_, by simpa using allows source here⟩
    intro only
    simpa [only] using granted source here
  · intro passes
    refine ⟨fun source here => ?_, fun source here => ?_, fun source here => ?_⟩
    · simp [(passes source here.1 here.2).undenied]
    · cases only : source.managedOnly with
      | false => simp
      | true => simp [(passes source here.1 here.2).granted only]
    · simp [(passes source here.1 here.2).allows]

omit [DecidableEq Ipv4] in
theorem allowsIgnoringManagedOnly_eq (source : McpServerAllowlist deps) :
    source.allowsIgnoringManagedOnly server =
      (!source.lockdown &&
        (!(source.entries.any fun compiled => mcpEntryRestricts compiled.entry server) ||
          source.matchesAllowEntry server)) := by
  -- Whether the source is restricted makes no difference beside its entries.
  unfold McpServerAllowlist.allowsIgnoringManagedOnly
  cases locked : source.lockdown with
  | true => simp
  | false =>
      cases restricted : source.isRestricted with
      | true => simp
      | false =>
          have empty : source.entries = [] := by
            simp only [McpServerAllowlist.isRestricted, Bool.or_eq_false_iff] at restricted
            simpa using restricted.1.2
          simp [empty]

omit [DecidableEq Ipv4] in
theorem grantsException_iff (policy : McpServerPolicy deps) (ownership : PolicyLayerOwnership) :
    policy.grantsException server ownership = true ↔
      ∃ source ∈ policy.sources, ownership.acceptsGrantFrom source.ownership = true ∧
        source.matchesAllowEntry server = true := by
  simp [McpServerPolicy.grantsException]

namespace McpServerAllowlist.TightenedBy

variable {source other : McpServerAllowlist deps}

omit [DecidableEq Ipv4] [DecidableEq Ipv6] in
theorem withLockdown (source : McpServerAllowlist deps) : source.TightenedBy source.withLockdown :=
  ⟨rfl, rfl, rfl, List.Subset.refl _, id, fun _ => rfl⟩

omit [DecidableEq Ipv4] in
theorem matchesAllowEntry (tightened : source.TightenedBy other) :
    other.matchesAllowEntry server = source.matchesAllowEntry server := by
  simp only [McpServerAllowlist.matchesAllowEntry, tightened.entries]

omit [DecidableEq Ipv4] [DecidableEq Ipv6] in
theorem binds (tightened : source.TightenedBy other) : other.binds origin = source.binds origin := by
  simp only [McpServerAllowlist.binds, tightened.authority]

theorem undenied (tightened : source.TightenedBy other)
    (free : other.isServerDenied server = false) : source.isServerDenied server = false := by
  simp only [McpServerAllowlist.isServerDenied, List.any_eq_false] at free ⊢
  exact fun compiled member => free compiled (tightened.denyEntries member)

omit [DecidableEq Ipv4] in
theorem allows (tightened : source.TightenedBy other)
    (allowed : other.allowsIgnoringManagedOnly server = true) :
    source.allowsIgnoringManagedOnly server = true := by
  rw [allowsIgnoringManagedOnly_eq, Bool.and_eq_true] at allowed ⊢
  rw [tightened.entries, tightened.matchesAllowEntry] at allowed
  refine ⟨?_, allowed.2⟩
  cases locked : source.lockdown with
  | false => rfl
  | true => simp [tightened.lockdown locked] at allowed

end McpServerAllowlist.TightenedBy

variable {policy other : McpServerPolicy deps}

theorem isServerAllowed_perm (perm : other.sources.Perm policy.sources) :
    other.isServerAllowed server origin = policy.isServerAllowed server origin := by
  -- The sources in another order give the same answer.
  have grants : ∀ ownership, other.grantsException server ownership =
      policy.grantsException server ownership := fun ownership => perm.any_eq
  rw [Bool.eq_iff_iff, isServerAllowed_iff, isServerAllowed_iff]
  constructor
  · intro passes source member binds
    obtain ⟨undenied, granted, allows⟩ := passes source (perm.mem_iff.mpr member) binds
    exact ⟨undenied, fun only => grants _ ▸ granted only, allows⟩
  · intro passes source member binds
    obtain ⟨undenied, granted, allows⟩ := passes source (perm.mem_iff.mp member) binds
    exact ⟨undenied, fun only => (grants _).symm ▸ granted only, allows⟩

omit [DecidableEq Ipv4] [DecidableEq Ipv6] in
theorem exists_tightened {sources others : List (McpServerAllowlist deps)}
    (tightened : List.Forall₂ McpServerAllowlist.TightenedBy sources others) :
    (∀ source ∈ sources, ∃ other ∈ others, source.TightenedBy other) ∧
      ∀ other ∈ others, ∃ source ∈ sources, source.TightenedBy other := by
  induction tightened with
  | nil => simp
  | cons tighter _ ih =>
      constructor
      · rintro source (_ | ⟨_, later⟩)
        · exact ⟨_, List.mem_cons_self, tighter⟩
        · obtain ⟨other, member, tighter⟩ := ih.1 source later
          exact ⟨other, List.mem_cons_of_mem _ member, tighter⟩
      · rintro other (_ | ⟨_, later⟩)
        · exact ⟨_, List.mem_cons_self, tighter⟩
        · obtain ⟨source, member, tighter⟩ := ih.2 other later
          exact ⟨source, List.mem_cons_of_mem _ member, tighter⟩

omit [DecidableEq Ipv4] in
theorem grantsException_of_tightened {ownership : PolicyLayerOwnership}
    (tightened : List.Forall₂ McpServerAllowlist.TightenedBy policy.sources other.sources)
    (grants : other.grantsException server ownership = true) :
    policy.grantsException server ownership = true := by
  rw [grantsException_iff] at grants ⊢
  obtain ⟨later, member, accepts, entry⟩ := grants
  obtain ⟨source, before, tighter⟩ := (exists_tightened tightened).2 later member
  exact ⟨source, before, tighter.ownership ▸ accepts, tighter.matchesAllowEntry ▸ entry⟩

theorem isServerAllowed_of_tightened
    (tightened : List.Forall₂ McpServerAllowlist.TightenedBy policy.sources other.sources)
    (allowed : other.isServerAllowed server origin = true) :
    policy.isServerAllowed server origin = true := by
  rw [isServerAllowed_iff] at allowed ⊢
  intro source member binds
  obtain ⟨later, after, tighter⟩ := (exists_tightened tightened).1 source member
  obtain ⟨undenied, granted, allows⟩ := allowed later after (tighter.binds.trans binds)
  refine ⟨tighter.undenied undenied, ?_, tighter.allows allows⟩
  intro only
  have grants := granted (tighter.managedOnly only)
  exact grantsException_of_tightened tightened (tighter.ownership ▸ grants)

theorem isServerAllowed_of_added {added : McpServerAllowlist deps} (empty : added.entries = [])
    (perm : other.sources.Perm (added :: policy.sources))
    (allowed : other.isServerAllowed server origin = true) :
    policy.isServerAllowed server origin = true := by
  -- A source without allow entries grants nothing.
  rw [isServerAllowed_iff] at allowed ⊢
  intro source member binds
  obtain ⟨undenied, granted, allows⟩ :=
    allowed source (perm.mem_iff.mpr (List.mem_cons_of_mem _ member)) binds
  refine ⟨undenied, fun only => ?_, allows⟩
  obtain ⟨grantor, among, accepts, entry⟩ := (grantsException_iff other source.ownership).mp (granted only)
  rcases List.mem_cons.mp (perm.mem_iff.mp among) with rfl | before
  · simp [McpServerAllowlist.matchesAllowEntry, empty] at entry
  · exact (grantsException_iff policy source.ownership).mpr ⟨grantor, before, accepts, entry⟩

end Restrictions

theorem restrictions_only_restrict (policy : McpServerPolicy deps) (server : McpServer)
    (origin : PolicySubjectOrigin) :
    (∀ other : McpServerPolicy deps, other.sources.Perm policy.sources →
        other.isServerAllowed server origin = policy.isServerAllowed server origin) ∧
      (∀ other : McpServerPolicy deps,
        List.Forall₂ McpServerAllowlist.TightenedBy policy.sources other.sources →
        policy.isServerAllowed server origin = false → other.isServerAllowed server origin = false) ∧
      (∀ (other : McpServerPolicy deps) (added : McpServerAllowlist deps), added.entries = [] →
        other.sources.Perm (added :: policy.sources) →
        policy.isServerAllowed server origin = false → other.isServerAllowed server origin = false) ∧
      (∀ source ∈ policy.sources, source.binds origin = true →
        source.isServerDenied server = true ∨ source.lockdown = true →
        policy.isServerAllowed server origin = false) ∧
      (policy.isServerAllowed server origin = true →
        ∀ source ∈ policy.sources, source.binds origin = true → source.managedOnly = true →
          ∃ grantor ∈ policy.sources, source.ownership.acceptsGrantFrom grantor.ownership = true ∧
            grantor.matchesAllowEntry server = true) := by
  refine ⟨fun other perm => isServerAllowed_perm perm, ?_, ?_, ?_, ?_⟩
  · intro other tightened blocked
    exact Bool.eq_false_iff.mpr fun allowed =>
      Bool.eq_false_iff.mp blocked (isServerAllowed_of_tightened tightened allowed)
  · intro other added empty perm blocked
    exact Bool.eq_false_iff.mpr fun allowed =>
      Bool.eq_false_iff.mp blocked (isServerAllowed_of_added empty perm allowed)
  · intro source member binds restricts
    refine Bool.eq_false_iff.mpr fun allowed => ?_
    have passes := (isServerAllowed_iff policy).mp allowed source member binds
    rcases restricts with denied | locked
    · simp [passes.undenied] at denied
    · simpa [allowsIgnoringManagedOnly_eq, locked] using passes.allows
  · intro allowed source member binds only
    have passes := (isServerAllowed_iff policy).mp allowed source member binds
    exact (grantsException_iff policy source.ownership).mp (passes.granted only)

end Sources

def plainExternals : Externals (List Glob.Token) Empty Empty :=
  { url := plainUrls
    glob := Glob.wildcards
    toLowercase := Text.lower }

def filesByName : McpServerAllowlist plainExternals := .new [.name "files".toList] []

def filesServer : McpServer := .stdio "Files".toList "/bin/files".toList []

theorem restrictions_only_restrict_lockdown :
    McpServerPolicy.isServerAllowed ⟨[filesByName.withLockdown]⟩ (.stdio "shell".toList [] [])
        .foreign = false ∧
      McpServerPolicy.isServerAllowed ⟨[filesByName.withLockdown, filesByName]⟩ filesServer
        .grokNative = false ∧
      ∃ grantor ∈ [filesByName.withManagedOnly], grantor.matchesAllowEntry filesServer = true := by
  refine ⟨?_, ?_, ?_⟩
  · exact (restrictions_only_restrict ⟨[filesByName]⟩ _ _).2.1 _
      (List.Forall₂.cons (.withLockdown _) .nil) (by decide +kernel)
  · exact (restrictions_only_restrict ⟨[filesByName.withLockdown, filesByName]⟩ _ _).2.2.2.1
      filesByName.withLockdown (by simp) rfl (Or.inr rfl)
  · obtain ⟨grantor, member, _, entry⟩ :=
      (restrictions_only_restrict ⟨[filesByName.withManagedOnly]⟩ filesServer .foreign).2.2.2.2
        (by decide +kernel) filesByName.withManagedOnly (by simp) rfl rfl
    exact ⟨grantor, member, entry⟩

end GrokPi.McpPolicy
