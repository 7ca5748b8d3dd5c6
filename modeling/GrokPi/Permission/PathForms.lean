import GrokPi.Permission.Policy
import GrokPi.Shared.NormalPath

set_option autoImplicit false

namespace GrokPi.Policy

open PathText

def NormalCwd (cwd : Text) : Prop := isAbsolute cwd = true ∧ normalizeLexically cwd = cwd

instance normalCwd_decidable (cwd : Text) : Decidable (NormalCwd cwd) :=
  inferInstanceAs (Decidable (_ ∧ _))

def relativeForms (path cwd : Text) : List Text :=
  (pathMatchForms path (some cwd)).filter fun form => !isAbsolute form

def Plain (form : Text) : Prop :=
  ∃ below, (form = below ∨ form = "./".toList ++ below ∨ form = ".".toList ∧ below = []) ∧
    ∀ piece ∈ below.splitOn '/', piece ≠ ".".toList ∧ piece ≠ "..".toList

structure Confined (path cwd : Text) : Prop where
  present : relativeForms path cwd ≠ [] ↔
    components cwd <+: components (absoluteNormalizedPath path (some cwd))
  plain : ∀ form ∈ relativeForms path cwd, Plain form
  rejoined : ∀ form ∈ relativeForms path cwd,
    normalizeLexically (join cwd form) = absoluteNormalizedPath path (some cwd)

/-- Two spellings of one path are decided alike, whatever the rules and the way of access. -/
def SameDecisions (path other cwd : Text) : Prop :=
  ∀ {Pattern : Type} {deps : Externals Pattern} (policy : CompiledPolicy deps) (access : AccessKind),
    nativeFilePath access = some path →
      policy.evaluateLexicalWithCwd (accessWithPath access other) (some cwd) =
        policy.evaluateLexicalWithCwd access (some cwd)

structure FormsFaithful (path cwd : Text) : Prop where
  literal : isTildePath path = true → pathMatchForms path (some cwd) = [path]
  confined : isTildePath path = false → Confined path cwd
  alike : isTildePath path = false → ∀ other, isTildePath other = false →
    absoluteNormalizedPath other (some cwd) = absoluteNormalizedPath path (some cwd) →
    SameDecisions path other cwd

/-- No backslash in what the forms spell: a tilde path, or the part below the directory. -/
def Spelled (path cwd : Text) : Prop :=
  if isTildePath path then '\\' ∉ path
  else ∀ rel, stripPrefix (absoluteNormalizedPath path (some cwd)) cwd = some rel → '\\' ∉ rel

theorem pathMatchString_self {text : Text} (free : '\\' ∉ text) : pathMatchString text = text := by
  rw [pathMatchString]
  refine (List.map_congr_left ?_).trans (List.map_id text)
  intro c member
  rw [if_neg]
  · rfl
  · rintro rfl
    exact free member

theorem pathMatchString_free (text : Text) : '\\' ∉ pathMatchString text := by
  simp only [pathMatchString, List.mem_map, not_exists, not_and]
  intro c _
  split
  · decide
  · assumption

theorem NormalCwd.render {cwd : Text} (normal : NormalCwd cwd) :
    cwd = PathText.render (names cwd) :=
  normal.2.symm.trans (normalizeLexically_absolute normal.1)

theorem absoluteNormalizedPath_render {cwd path : Text} (normal : NormalCwd cwd)
    (plain : isTildePath path = false) :
    ∃ list : List Text, (∀ name ∈ list, Clean name) ∧
      absoluteNormalizedPath path (some cwd) = render list := by
  simp only [absoluteNormalizedPath, plain, Bool.false_eq_true, if_false, joinedToolPath]
  by_cases absolute : isAbsolute path = true
  · rw [if_pos absolute, normalizeLexically_absolute absolute]
    exact ⟨_, names_clean path, rfl⟩
  · have relative := Bool.eq_false_iff.mpr absolute
    rw [if_neg absolute, normal.render,
      normalizeLexically_absolute (join_absolute (names_clean cwd) relative)]
    exact ⟨_, names_clean _, rfl⟩

theorem pathMatchForms_tilde {cwd path : Text} (normal : NormalCwd cwd)
    (tilde : isTildePath path = true) : pathMatchForms path (some cwd) = [pathMatchString path] := by
  have outside : stripPrefix path cwd = none := by
    rw [stripPrefix, if_neg]
    rw [List.isPrefixOf_iff_prefix, components_absolute normal.1]
    rintro ⟨rest, same⟩
    simp [isTildePath, ← same] at tilde
  simp only [pathMatchForms, absoluteNormalizedPath, tilde, if_true, normal.2, outside]

section Below

variable {cwd path : Text} {list : List Text}

theorem pathMatchForms_render (normal : NormalCwd cwd) (clean : ∀ name ∈ list, Clean name)
    (abs : absoluteNormalizedPath path (some cwd) = render list) :
    pathMatchForms path (some cwd) = pathMatchString (render list) ::
      if names cwd <+: list then
        let rel := pathMatchString (['/'].intercalate (list.drop (names cwd).length))
        if rel = [] ∨ rel = ".".toList then [".".toList, "./".toList]
        else ["./".toList ++ rel, rel]
      else [] := by
  have strip := stripPrefix_render (names_clean cwd) clean
  rw [← normal.render] at strip
  simp only [pathMatchForms, abs, normal.2, strip]
  by_cases under : names cwd <+: list
  · simp only [if_pos under]
  · simp only [if_neg under]

theorem relativeForms_render (normal : NormalCwd cwd) (clean : ∀ name ∈ list, Clean name)
    (abs : absoluteNormalizedPath path (some cwd) = render list) :
    relativeForms path cwd =
      if names cwd <+: list then
        let rel := pathMatchString (['/'].intercalate (list.drop (names cwd).length))
        if rel = [] ∨ rel = ".".toList then [".".toList, "./".toList]
        else ("./".toList ++ rel) :: (if isAbsolute rel then [] else [rel])
      else [] := by
  have first : isAbsolute (pathMatchString (render list)) = true := rfl
  rw [relativeForms, pathMatchForms_render normal clean abs, List.filter_cons, first]
  simp only [Bool.not_true, Bool.false_eq_true, if_false]
  split
  next =>
    split
    next => rfl
    next =>
      rw [List.filter_cons]
      have dotted : ∀ rel : Text, isAbsolute ("./".toList ++ rel) = false := fun _ => rfl
      rw [dotted]
      simp only [Bool.not_false, if_true]
      cases absolute : isAbsolute
          (pathMatchString (['/'].intercalate (list.drop (names cwd).length))) with
      | true => simp [absolute]
      | false => simp [absolute]
  next => rfl

theorem intercalate_clean_relative {below : List Text} (clean : ∀ name ∈ below, Clean name) :
    isAbsolute (['/'].intercalate below) = false := by
  cases below with
  | nil => rfl
  | cons first rest =>
      have named := (clean first List.mem_cons_self)
      obtain ⟨c, others, same⟩ := List.exists_cons_of_ne_nil named.nonempty
      have different : c ≠ '/' := by
        rintro rfl
        exact named.noSlash (same ▸ List.mem_cons_self)
      cases rest with
      | nil => simp [isAbsolute, same, different]
      | cons second others => simp [isAbsolute, same, different, List.intercalate_cons_cons]

theorem body_dotted (rel : Text) : body ("./".toList ++ rel) = body rel := body_append ['.'] rel

theorem foldl_normalName_normal (rest before : List Text) :
    (rest.map Component.normal).foldl normalName before = before ++ rest := by
  induction rest generalizing before with
  | nil => simp
  | cons name others ih =>
      rw [List.map_cons, List.foldl_cons, ih]
      simp [normalName]

theorem rejoin_below (normal : NormalCwd cwd) {form : Text} {rest : List Text} (relative : isAbsolute form = false)
    (parts : body form = rest.map .normal) : normalizeLexically (join cwd form) = render (names cwd ++ rest) := by
  conv_lhs => rw [normal.render]
  rw [normalizeLexically_absolute (join_absolute (names_clean cwd) relative), names_join (names_clean cwd) relative,
    parts, foldl_normalName_normal]

theorem Confined.of_spelled (normal : NormalCwd cwd) (clean : ∀ name ∈ list, Clean name)
    (abs : absoluteNormalizedPath path (some cwd) = render list)
    (spelled : names cwd <+: list → '\\' ∉ ['/'].intercalate (list.drop (names cwd).length)) :
    Confined path cwd := by
  -- Every spelling leads back to the path when the match text leaves the names as they are.
  have forms := relativeForms_render normal clean abs
  have below : ∀ name ∈ list.drop (names cwd).length, Clean name := fun name member =>
    clean name (List.mem_of_mem_drop member)
  have directory : components cwd = .rootDir :: (names cwd).map .normal := by
    rw [components_absolute normal.1]
    conv_lhs => rw [normal.render]
    rw [body_render (names_clean cwd)]
  have inside : components cwd <+: components (render list) ↔ names cwd <+: list := by
    rw [directory, components_absolute (render_absolute _), body_render clean,
      List.cons_prefix_cons]
    simp [map_normal_base]
  by_cases under : names cwd <+: list
  · have same := pathMatchString_self (spelled under)
    simp only [if_pos under, same] at forms
    have whole : names cwd ++ list.drop (names cwd).length = list := by
      obtain ⟨rest, rfl⟩ := under
      simp
    have rejoin : ∀ form, isAbsolute form = false →
        body form = (list.drop (names cwd).length).map .normal →
        normalizeLexically (join cwd form) = render list := by
      intro form relative parts
      rw [rejoin_below normal relative parts, whole]
    have parts := body_intercalate below
    have relative := intercalate_clean_relative below
    have empty : list.drop (names cwd).length = [] →
        ['/'].intercalate (list.drop (names cwd).length) = [] := fun none => by
      rw [none]
      rfl
    have pieces : list.drop (names cwd).length ≠ [] →
        (['/'].intercalate (list.drop (names cwd).length)).splitOn '/' =
          list.drop (names cwd).length :=
      List.splitOn_intercalate '/' fun name member => (below name member).noSlash
    generalize list.drop (names cwd).length = rest at *
    generalize ['/'].intercalate rest = rel at *
    by_cases here : rel = [] ∨ rel = ".".toList
    · rw [if_pos here] at forms
      have nothing : rest.map Component.normal = [] := by
        rw [← parts]
        rcases here with rfl | rfl
        · rfl
        · rfl
      have dot : body ".".toList = rest.map .normal := nothing ▸ rfl
      have dotSlash : body "./".toList = rest.map .normal := nothing ▸ rfl
      constructor
      · rw [forms, abs, inside]
        simp [under]
      · intro form member
        rw [forms] at member
        refine ⟨[], ?_, ?_⟩
        · rcases List.mem_cons.mp member with rfl | last
          · exact Or.inr (Or.inr ⟨rfl, rfl⟩)
          · exact Or.inr (Or.inl (List.mem_singleton.mp last))
        · intro piece inside
          rw [List.splitOn_nil, List.mem_singleton] at inside
          subst inside
          exact ⟨by decide, by decide⟩
      · intro form member
        rw [forms] at member
        rw [abs]
        rcases List.mem_cons.mp member with rfl | last
        · exact rejoin _ rfl dot
        · rw [List.mem_singleton.mp last]
          exact rejoin _ rfl dotSlash
    · rw [if_neg here, relative] at forms
      simp only [Bool.false_eq_true, if_false] at forms
      have split := pieces fun none => here (Or.inl (empty none))
      constructor
      · rw [forms, abs, inside]
        simp [under]
      · intro form member
        rw [forms] at member
        refine ⟨rel, ?_, ?_⟩
        · rcases List.mem_cons.mp member with rfl | last
          · exact Or.inr (Or.inl rfl)
          · exact Or.inl (List.mem_singleton.mp last)
        · intro piece inside
          rw [split] at inside
          exact ⟨(below piece inside).notCurDir, (below piece inside).notParentDir⟩
      · intro form member
        rw [forms] at member
        rw [abs]
        rcases List.mem_cons.mp member with rfl | last
        · exact rejoin _ rfl ((body_dotted rel).trans parts)
        · rw [List.mem_singleton.mp last]
          exact rejoin _ relative parts
  · simp only [if_neg under] at forms
    constructor
    · rw [forms, abs, inside]
      simp [under]
    · simp [forms]
    · simp [forms]

theorem foldl_normalName_drop {property : Text → Prop} (count : Nat) (parts : List Component)
    (named : ∀ name, .normal name ∈ parts → property name) (before : List Text)
    (earlier : ∀ name ∈ before.drop count, property name) :
    ∀ name ∈ (parts.foldl normalName before).drop count, property name := by
  -- Below the first names a walk leaves only names that its components have.
  induction parts generalizing before with
  | nil => exact earlier
  | cons part rest ih =>
      apply ih fun name member => named name (List.mem_cons_of_mem _ member)
      cases part with
      | rootDir => exact earlier
      | curDir => exact earlier
      | parentDir =>
          intro name member
          exact earlier name (((List.dropLast_sublist before).drop count).subset member)
      | normal last =>
          intro name member
          rw [normalName, List.drop_append] at member
          rcases List.mem_append.mp member with old | new
          · exact earlier name old
          · rw [List.mem_singleton.mp (List.mem_of_mem_drop new)]
            exact named last List.mem_cons_self

theorem backslash_intercalate {below : List Text} (slashed : '\\' ∈ ['/'].intercalate below) :
    ∃ name ∈ below, '\\' ∈ name := by
  induction below with
  | nil => simp at slashed
  | cons first rest ih =>
      cases rest with
      | nil => exact ⟨first, List.mem_cons_self, by simpa using slashed⟩
      | cons second others =>
          rw [List.intercalate_cons_cons, List.mem_append, List.mem_append] at slashed
          rcases slashed with (here | separator) | later
          · exact ⟨first, List.mem_cons_self, here⟩
          · simp at separator
          · obtain ⟨name, member, inside⟩ := ih later
            exact ⟨name, List.mem_cons_of_mem _ member, inside⟩

theorem Confined.spelled (confined : Confined path cwd) (normal : NormalCwd cwd)
    (clean : ∀ name ∈ list, Clean name)
    (abs : absoluteNormalizedPath path (some cwd) = render list) (under : names cwd <+: list) :
    '\\' ∉ ['/'].intercalate (list.drop (names cwd).length) := by
  -- A backslash below the directory becomes a separator, and the spelling leads elsewhere.
  intro slashed
  have forms := relativeForms_render normal clean abs
  rw [if_pos under] at forms
  have marked : '/' ∈ pathMatchString (['/'].intercalate (list.drop (names cwd).length)) :=
    List.mem_map.mpr ⟨'\\', slashed, rfl⟩
  have free := pathMatchString_free (['/'].intercalate (list.drop (names cwd).length))
  generalize pathMatchString (['/'].intercalate (list.drop (names cwd).length)) = rel at *
  have named : ¬ (rel = [] ∨ rel = ".".toList) := by
    rintro (rfl | rfl)
    · cases marked
    · revert marked
      decide
  simp only [if_neg named] at forms
  have joined := confined.rejoined ("./".toList ++ rel) (by rw [forms]; exact List.mem_cons_self)
  have relative : isAbsolute ("./".toList ++ rel) = false := rfl
  rw [abs, normal.render,
    normalizeLexically_absolute (join_absolute (names_clean cwd) relative),
    names_join (names_clean cwd) relative, body_dotted] at joined
  have walked := render_injective
    (foldl_clean (fun _ member => body_plain member) (names_clean cwd)) clean joined
  have plain : ∀ name ∈ list.drop (names cwd).length, '\\' ∉ name := by
    rw [← walked]
    apply foldl_normalName_drop
    · intro name member inside
      obtain ⟨piece, split, same⟩ := List.mem_filterMap.mp member
      have here : piece = name := by
        simp only [pieceComponent] at same
        split at same
        · cases same
        · split at same
          · cases same
          · injection Option.some.inj same
      subst here
      exact free (splitOn_mem split inside)
    · simp
  obtain ⟨name, member, inside⟩ := backslash_intercalate slashed
  exact plain name member inside

end Below

theorem pathMatchForms_same {path other cwd : Text}
    (same : absoluteNormalizedPath other (some cwd) = absoluteNormalizedPath path (some cwd)) :
    pathMatchForms other (some cwd) = pathMatchForms path (some cwd) := by
  simp only [pathMatchForms, same]

theorem sameDecisions {path other cwd : Text}
    (same : pathMatchForms other (some cwd) = pathMatchForms path (some cwd)) :
    SameDecisions path other cwd := by
  intro Pattern deps policy access native
  have context : ∀ matcher : Option Pattern,
      pathContextMatches deps other matcher (some cwd) =
        pathContextMatches deps path matcher (some cwd) := by
    intro matcher
    simp only [pathContextMatches, same]
  have matched : ∀ rule matcher, patternMatches deps (accessWithPath access other) rule matcher
      (some cwd) = patternMatches deps access rule matcher (some cwd) := by
    intro rule matcher
    cases access with
    | edit old =>
        obtain rfl := Option.some.inj native
        simp only [accessWithPath, patternMatches, context]
    | read old =>
        obtain rfl : old = some path := native
        simp only [accessWithPath, patternMatches, Option.any_some, context]
    | grep old glob =>
        obtain rfl : old = some path := native
        simp only [accessWithPath, patternMatches, Option.any_some, context]
    | _ => cases native
  have filtered : ∀ tool, toolFilterMatches (accessWithPath access other) tool =
      toolFilterMatches access tool := by
    intro tool
    cases access <;> cases tool <;> rfl
  have applicable : policy.applicable (accessWithPath access other) (some cwd) =
      policy.applicable access (some cwd) := by
    simp only [CompiledPolicy.applicable, matched, filtered]
  simp only [CompiledPolicy.evaluateLexicalWithCwd, applicable]
  cases access with
  | bash cmd => cases native
  | _ => rfl

theorem forms_faithful_iff (path cwd : Text) (normal : NormalCwd cwd) :
    FormsFaithful path cwd ↔ Spelled path cwd := by
  cases tilde : isTildePath path with
  | true =>
      have forms := pathMatchForms_tilde normal tilde
      rw [Spelled, if_pos tilde]
      constructor
      · intro faithful
        have literal := faithful.literal tilde
        rw [forms] at literal
        have free := pathMatchString_free path
        rwa [(List.cons.inj literal).1] at free
      · intro spelled
        exact
          { literal := fun _ => by rw [forms, pathMatchString_self spelled]
            confined := fun plain => by rw [tilde] at plain; cases plain
            alike := fun plain => by rw [tilde] at plain; cases plain }
  | false =>
      obtain ⟨list, clean, abs⟩ := absoluteNormalizedPath_render normal tilde
      have strip := stripPrefix_render (names_clean cwd) clean
      rw [← normal.render] at strip
      rw [Spelled, if_neg (by simp [tilde]), abs, strip]
      constructor
      · intro faithful rel here
        split at here
        next under =>
          obtain rfl := Option.some.inj here
          exact (faithful.confined tilde).spelled normal clean abs under
        next => cases here
      · intro spelled
        exact
          { literal := fun tilted => by rw [tilde] at tilted; cases tilted
            confined := fun plain => Confined.of_spelled normal clean abs fun under =>
              spelled _ (if_pos under)
            alike := fun _ other _ same => sameDecisions (pathMatchForms_same same) }

theorem forms_faithful_dotted : FormsFaithful "src/./../src//a.rs".toList "/work".toList :=
  (forms_faithful_iff _ _ (by decide)).mpr (by
    rw [Spelled, if_neg (by decide)]
    intro rel below
    have here : stripPrefix (absoluteNormalizedPath "src/./../src//a.rs".toList
        (some "/work".toList)) "/work".toList = some "src/a.rs".toList := by decide
    rw [here] at below
    obtain rfl := Option.some.inj below
    decide)

def slashedName : Text := "a\\..\\..\\etc".toList

theorem slashed_name_leaves_cwd :
    ¬ ∀ path cwd : Text, NormalCwd cwd → FormsFaithful path cwd := by
  intro claim
  have rejoined := ((claim slashedName "/work".toList (by decide)).confined (by decide)).rejoined
  have elsewhere := rejoined "./a/../../etc".toList (by decide)
  revert elsewhere
  decide

end GrokPi.Policy
