import GrokPi.Shared.PathText

set_option autoImplicit false

namespace PathText

structure Clean (name : Text) : Prop where
  nonempty : name ≠ []
  notCurDir : name ≠ ".".toList
  notParentDir : name ≠ "..".toList
  noSlash : '/' ∉ name

def render (names : List Text) : Text := '/' :: ['/'].intercalate names

def body (path : Text) : List Component := (path.splitOn '/').filterMap pieceComponent

def normalName (names : List Text) : Component → List Text
  | .parentDir => names.dropLast
  | .normal name => names ++ [name]
  | .rootDir | .curDir => names

def names (path : Text) : List Text := (body path).foldl normalName []

theorem splitOn_noSlash {text piece : Text} (member : piece ∈ text.splitOn '/') : '/' ∉ piece := by
  induction text generalizing piece with
  | nil =>
      simp only [List.splitOn_nil, List.mem_singleton] at member
      simp [member]
  | cons c rest ih =>
      rw [List.splitOn_cons_eq_if_modifyHead] at member
      split at member
      next =>
        rcases List.mem_cons.mp member with rfl | later
        · simp
        · exact ih later
      next slash =>
        have different : c ≠ '/' := by simpa using slash
        cases split : rest.splitOn '/' with
        | nil => exact absurd split (List.splitOn_ne_nil _ _)
        | cons first others =>
            rw [split] at member ih
            rcases List.mem_cons.mp member with rfl | later
            · simp [Ne.symm different, ih List.mem_cons_self]
            · exact ih (List.mem_cons_of_mem _ later)

theorem splitOn_mem {text piece : Text} {c : Char} (member : piece ∈ text.splitOn '/')
    (inside : c ∈ piece) : c ∈ text := by
  induction text generalizing piece with
  | nil =>
      simp only [List.splitOn_nil, List.mem_singleton] at member
      simp [member] at inside
  | cons d rest ih =>
      rw [List.splitOn_cons_eq_if_modifyHead] at member
      split at member
      next =>
        rcases List.mem_cons.mp member with rfl | later
        · cases inside
        · exact List.mem_cons_of_mem _ (ih later inside)
      next =>
        cases split : rest.splitOn '/' with
        | nil => exact absurd split (List.splitOn_ne_nil _ _)
        | cons first others =>
            rw [split] at member ih
            rcases List.mem_cons.mp member with rfl | later
            · rcases List.mem_cons.mp inside with rfl | deeper
              · exact List.mem_cons_self
              · exact List.mem_cons_of_mem _ (ih List.mem_cons_self deeper)
            · exact List.mem_cons_of_mem _ (ih (List.mem_cons_of_mem _ later) inside)

theorem pieceComponent_clean {name : Text} (clean : Clean name) :
    pieceComponent name = some (.normal name) := by
  simp only [pieceComponent, clean.nonempty, clean.notCurDir, clean.notParentDir, or_self, if_false]

variable {path : Text}

theorem body_plain {component : Component} (member : component ∈ body path) :
    component = .parentDir ∨ ∃ name, component = .normal name ∧ Clean name := by
  obtain ⟨piece, inside, same⟩ := List.mem_filterMap.mp member
  simp only [pieceComponent] at same
  split at same
  next => cases same
  next visible =>
    split at same
    next => exact Or.inl (Option.some.inj same).symm
    next down =>
      obtain rfl := Option.some.inj same
      have ⟨nonempty, notCurDir⟩ := not_or.mp visible
      exact Or.inr ⟨piece, rfl, nonempty, notCurDir, down, splitOn_noSlash inside⟩

theorem body_append (first second : Text) :
    body (first ++ '/' :: second) = body first ++ body second := by
  simp only [body, List.splitOn_append_cons_self, List.filterMap_append]

variable {list : List Text}

theorem body_intercalate (clean : ∀ name ∈ list, Clean name) :
    body (['/'].intercalate list) = list.map .normal := by
  cases list with
  | nil => rfl
  | cons first rest =>
      simp only [body]
      rw [List.splitOn_intercalate '/' (fun name member => (clean name member).noSlash)
        (List.cons_ne_nil _ _)]
      generalize first :: rest = all at clean
      induction all with
      | nil => rfl
      | cons name others ih =>
          rw [List.filterMap_cons, pieceComponent_clean (clean name List.mem_cons_self),
            List.map_cons, ih fun other member => clean other (List.mem_cons_of_mem _ member)]

theorem body_render (clean : ∀ name ∈ list, Clean name) : body (render list) = list.map .normal := by
  have whole := body_append [] (['/'].intercalate list)
  rw [body_intercalate clean] at whole
  exact whole

theorem components_absolute (absolute : isAbsolute path = true) :
    components path = .rootDir :: body path := by
  simp only [components, absolute, if_true, body]

theorem render_absolute (list : List Text) : isAbsolute (render list) = true := rfl

theorem intercalate_concat (list : List Text) (name : Text) : ['/'].intercalate (list ++ [name]) =
    if list = [] then name else ['/'].intercalate list ++ '/' :: name := by
  induction list with
  | nil => simp
  | cons first rest ih =>
      cases rest with
      | nil => simp [List.intercalate_cons_cons]
      | cons second others =>
          have shown : ['/'].intercalate (first :: second :: others ++ [name]) =
              first ++ '/' :: ['/'].intercalate (second :: others ++ [name]) := by
            simp [List.intercalate_cons_cons]
          rw [shown, ih]
          simp [List.intercalate_cons_cons]

theorem render_open (clean : ∀ name ∈ list, Clean name) (below : list ≠ []) :
    (render list).getLast? ≠ some '/' := by
  -- Below the root no path ends with a separator.
  cases list using List.reverseRecOn with
  | nil => exact absurd rfl below
  | append_singleton earlier last =>
      have lastClean := clean last (by simp)
      have ends : ∃ front, render (earlier ++ [last]) = front ++ last := by
        rw [render, intercalate_concat]
        split
        · exact ⟨['/'], rfl⟩
        · exact ⟨'/' :: ['/'].intercalate earlier ++ ['/'], by simp⟩
      obtain ⟨front, ends⟩ := ends
      rw [ends, List.getLast?_append_of_ne_nil _ lastClean.nonempty]
      intro slash
      exact lastClean.noSlash (List.mem_of_getLast? slash)

theorem join_render (clean : ∀ name ∈ list, Clean name) (relative : isAbsolute path = false) :
    join (render list) path =
      if list = [] then '/' :: path else render list ++ '/' :: path := by
  -- A relative path below an absolute one.
  simp only [join, relative, Bool.false_eq_true, if_false]
  by_cases below : list = []
  · subst below
    simp [render]
  · rw [if_neg below, if_neg]
    rw [not_or]
    exact ⟨List.cons_ne_nil _ _, render_open clean below⟩

theorem Clean.relative {name : Text} (clean : Clean name) : isAbsolute name = false := by
  cases name with
  | nil => rfl
  | cons c rest =>
      have different : c ≠ '/' := fun same => clean.noSlash (same ▸ List.mem_cons_self)
      simp [isAbsolute, different]

theorem render_concat (clean : ∀ name ∈ list, Clean name) {name : Text}
    (named : Clean name) : join (render list) name = render (list ++ [name]) := by
  rw [join_render clean named.relative]
  simp only [render]
  rw [intercalate_concat]
  split
  · rfl
  · simp

theorem collect_render (clean : ∀ name ∈ list, Clean name) :
    collect (.rootDir :: list.map .normal) = render list := by
  induction list using List.reverseRecOn with
  | nil => rfl
  | append_singleton earlier last ih =>
      have before : ∀ name ∈ earlier, Clean name := fun name member => clean name (by simp [member])
      have built := ih before
      simp only [collect] at built ⊢
      rw [List.map_append, ← List.cons_append, List.foldl_append, built]
      exact render_concat before (clean last (by simp))

theorem foldl_normalizeStep (parts : List Component) (list : List Text)
    (plain : ∀ part ∈ parts, part = .parentDir ∨ ∃ name, part = .normal name) :
    parts.foldl normalizeStep ((list.map Component.normal).reverse ++ [.rootDir]) =
      ((parts.foldl normalName list).map Component.normal).reverse ++ [.rootDir] := by
  -- The fold of the normalization over what follows the root.
  induction parts generalizing list with
  | nil => rfl
  | cons part rest ih =>
      have later : ∀ part ∈ rest, part = .parentDir ∨ ∃ name, part = .normal name :=
        fun part member => plain part (List.mem_cons_of_mem _ member)
      rw [List.foldl_cons, List.foldl_cons]
      rcases plain part List.mem_cons_self with rfl | ⟨name, rfl⟩
      · have step : normalizeStep ((list.map Component.normal).reverse ++ [.rootDir]) .parentDir =
            ((list.dropLast).map Component.normal).reverse ++ [.rootDir] := by
          cases list using List.reverseRecOn with
          | nil => rfl
          | append_singleton earlier last => simp [normalizeStep]
        rw [step]
        exact ih list.dropLast later
      · have step : normalizeStep ((list.map Component.normal).reverse ++ [.rootDir])
            (.normal name) = ((list ++ [name]).map Component.normal).reverse ++ [.rootDir] := by
          simp [normalizeStep]
        rw [step]
        exact ih (list ++ [name]) later

theorem foldl_clean {parts : List Component}
    (plain : ∀ part ∈ parts, part = .parentDir ∨ ∃ name, part = .normal name ∧ Clean name)
    (clean : ∀ name ∈ list, Clean name) : ∀ name ∈ parts.foldl normalName list, Clean name := by
  induction parts generalizing list with
  | nil => exact clean
  | cons part rest ih =>
      apply ih fun part member => plain part (List.mem_cons_of_mem _ member)
      rcases plain part List.mem_cons_self with rfl | ⟨last, rfl, lastClean⟩
      · exact fun name member => clean name (List.dropLast_subset _ member)
      · intro name member
        rcases List.mem_append.mp member with earlier | here
        · exact clean name earlier
        · exact List.mem_singleton.mp here ▸ lastClean

theorem names_clean (path : Text) : ∀ name ∈ names path, Clean name :=
  foldl_clean (fun _ member => body_plain member) (by simp)

theorem normalizeLexically_absolute (absolute : isAbsolute path = true) :
    normalizeLexically path = render (names path) := by
  have fold := foldl_normalizeStep (body path) [] fun part member =>
    (body_plain member).imp_right fun ⟨name, same, _⟩ => ⟨name, same⟩
  have steps : (components path).foldl normalizeStep [] =
      ((names path).map Component.normal).reverse ++ [.rootDir] := by
    rw [components_absolute absolute]
    exact fold
  simp only [normalizeLexically, steps, List.reverse_append, List.reverse_reverse,
    List.reverse_singleton, List.singleton_append, List.isEmpty_cons, Bool.false_eq_true, if_false]
  exact collect_render (names_clean path)

theorem names_render (clean : ∀ name ∈ list, Clean name) : names (render list) = list := by
  rw [names, body_render clean]
  have all : ∀ before : List Text,
      (list.map Component.normal).foldl normalName before = before ++ list := by
    intro before
    clear clean
    induction list generalizing before with
    | nil => simp
    | cons name rest ih =>
        rw [List.map_cons, List.foldl_cons, ih]
        simp [normalName]
  rw [all]
  rfl

theorem render_injective {first second : List Text} (clean : ∀ name ∈ first, Clean name)
    (otherClean : ∀ name ∈ second, Clean name) (same : render first = render second) :
    first = second := by
  rw [← names_render clean, same, names_render otherClean]

theorem join_absolute (clean : ∀ name ∈ list, Clean name)
    (relative : isAbsolute path = false) : isAbsolute (join (render list) path) = true := by
  rw [join_render clean relative]
  split <;> rfl

theorem names_join (clean : ∀ name ∈ list, Clean name) (relative : isAbsolute path = false) :
    names (join (render list) path) = (body path).foldl normalName list := by
  have parts : body (join (render list) path) = body (render list) ++ body path := by
    rw [join_render clean relative]
    split
    next root =>
      subst root
      exact body_append [] path
    next => exact body_append _ path
  have start : (body (render list)).foldl normalName [] = list := names_render clean
  rw [names, parts, List.foldl_append, start]

theorem map_normal_base {base list : List Text} :
    base.map Component.normal <+: list.map Component.normal ↔ base <+: list := by
  constructor
  · intro ⟨rest, same⟩
    have injective : Function.Injective Component.normal := fun _ _ same => by injection same
    have left := List.map_eq_append_iff.mp same.symm
    obtain ⟨first, second, split, firstIs, _⟩ := left
    have equal := injective.list_map firstIs
    exact ⟨second, by rw [split, equal]⟩
  · intro inside
    exact inside.map _

theorem splitOn_render (clean : ∀ name ∈ list, Clean name) :
    (render list).splitOn '/' = [] :: if list = [] then [[]] else list := by
  have whole : (render list).splitOn '/' =
      [] :: (['/'].intercalate list).splitOn '/' := by
    rw [render, List.splitOn_cons_eq_if_modifyHead]
    simp
  rw [whole]
  split
  next root =>
    subst root
    rfl
  next below => rw [List.splitOn_intercalate '/' (fun name member => (clean name member).noSlash) below]

theorem Clean.visible {name : Text} (clean : Clean name) : skippable name = false := by
  have nonempty := clean.nonempty
  have notCurDir := clean.notCurDir
  simp only [skippable, Bool.or_eq_false_iff, List.isEmpty_eq_false_iff, beq_eq_false_iff_ne]
  exact ⟨nonempty, notCurDir⟩

theorem dropComponents_clean (clean : ∀ name ∈ list, Clean name) (count : Nat) :
    dropComponents count list = list.drop count := by
  induction list generalizing count with
  | nil => cases count <;> rfl
  | cons name rest ih =>
      cases count with
      | zero => rfl
      | succ count =>
          simp only [dropComponents, (clean name List.mem_cons_self).visible, Bool.false_eq_true,
            if_false, List.drop_succ_cons]
          exact ih (fun other member => clean other (List.mem_cons_of_mem _ member)) count

theorem asPath_clean (clean : ∀ name ∈ list, Clean name) : asPath list = ['/'].intercalate list := by
  have front : list.dropWhile skippable = list := by
    cases list with
    | nil => rfl
    | cons name rest => simp [(clean name List.mem_cons_self).visible]
  have back : list.rdropWhile skippable = list := by
    rw [List.rdropWhile_eq_self_iff]
    intro below
    simp [(clean _ (List.getLast_mem below)).visible]
  rw [asPath, front, back]

theorem stripPrefix_render {base list : List Text} (baseClean : ∀ name ∈ base, Clean name)
    (clean : ∀ name ∈ list, Clean name) :
    stripPrefix (render list) (render base) =
      if base <+: list then some (['/'].intercalate (list.drop base.length)) else none := by
  have inside : ((components (render base)).isPrefixOf (components (render list)) = true) ↔
      base <+: list := by
    rw [components_absolute (render_absolute _), components_absolute (render_absolute _),
      body_render baseClean, body_render clean, List.isPrefixOf_iff_prefix]
    rw [List.cons_prefix_cons]
    simp [map_normal_base]
  have below : ((render base).splitOn '/').countP (!skippable ·) = base.length := by
    rw [splitOn_render baseClean]
    split
    next root =>
      subst root
      rfl
    next =>
      rw [List.countP_cons_of_neg (by simp [skippable]), List.countP_eq_length]
      intro name member
      simp [(baseClean name member).visible]
  simp only [stripPrefix, below]
  by_cases under : base <+: list
  · rw [if_pos (inside.mpr under), if_pos under, splitOn_render clean]
    refine congrArg some ?_
    have rest := fun name (member : name ∈ list.drop base.length) =>
      clean name (List.mem_of_mem_drop member)
    rw [← asPath_clean rest]
    cases count : base.length with
    | zero =>
        rw [dropComponents, List.drop_zero]
        split
        next root =>
          subst root
          rfl
        next => simp [asPath, skippable]
    | succ count' =>
        have below : list ≠ [] := by
          rintro rfl
          rw [List.prefix_nil] at under
          rw [under] at count
          cases count
        have head : skippable [] = true := rfl
        simp only [dropComponents, head, if_true, if_neg below]
        rw [dropComponents_clean clean]
  · rw [if_neg (mt inside.mp under), if_neg under]

end PathText
