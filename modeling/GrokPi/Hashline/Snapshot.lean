import GrokPi.Hashline.Edits
import GrokPi.Shared.Substitution

set_option autoImplicit false

namespace GrokPi.Hashline

open Substitution

section Lines

def rawLines (content : Text) : List Text := content.splitOn '\n'

def dropReturn (line : Text) : Text := if line.getLast? = some '\r' then line.dropLast else line

def dropReturns : List Text → List Text
  | [] => []
  | [last] => [last]
  | first :: second :: rest => dropReturn first :: dropReturns (second :: rest)

theorem rawLines_unsplit (content : Text) : ∀ line ∈ rawLines content, '\n' ∉ line := by
  induction content with
  | nil => simp [rawLines]
  | cons c rest ih =>
      intro line member
      unfold rawLines at member ih
      rw [List.splitOn_cons_eq_if_modifyHead] at member
      split at member
      · rcases List.mem_cons.mp member with rfl | later
        · simp
        · exact ih line later
      next other =>
        have letter : c ≠ '\n' := by simpa using other
        cases shape : List.splitOn '\n' rest with
        | nil => exact absurd shape (List.splitOn_ne_nil _ _)
        | cons head tail =>
            rw [shape] at member ih
            rcases List.mem_cons.mp member with rfl | later
            · rw [List.mem_cons, not_or]
              exact ⟨letter.symm, ih head List.mem_cons_self⟩
            · exact ih line (List.mem_cons_of_mem _ later)

theorem joinLines_rawLines (content : Text) : Text.joinLines (rawLines content) = content :=
  List.intercalate_splitOn '\n'

theorem rawLines_joinLines {parts : List Text} (some' : parts ≠ []) (unsplit : ∀ line ∈ parts, '\n' ∉ line) :
    rawLines (Text.joinLines parts) = parts := List.splitOn_intercalate '\n' unsplit some'

theorem stripTerminator_dropReturn (line : Text) : Text.stripTerminator (line ++ ['\n']) = dropReturn line := by
  simp [Text.stripTerminator, dropReturn]

theorem splitLines_single {line : Text} (unsplit : '\n' ∉ line) : splitLines line = [line] := by
  unfold splitLines
  by_cases empty : line = []
  · rw [if_pos empty, empty]
  · have unended : ¬ Text.EndsInLine line := fun ended => unsplit (List.mem_of_getLast? ended)
    have clean : '\n' ∉ line.dropLast := fun member => unsplit (List.dropLast_subset _ member)
    rw [if_neg empty, if_neg unended, Text.lines, Text.splitInclusive_last empty clean, List.map_singleton,
      Text.stripTerminator_unended unended]

theorem splitLines_cons (line rest : Text) (unsplit : '\n' ∉ line) :
    splitLines (line ++ '\n' :: rest) = dropReturn line :: splitLines rest := by
  have pieces : Text.splitInclusive '\n' (line ++ '\n' :: rest) =
      (line ++ ['\n']) :: Text.splitInclusive '\n' rest := by
    rw [← Text.splitInclusive_append_line rest (by simp) (by simpa using unsplit)]
    simp
  have split : Text.lines (line ++ '\n' :: rest) = dropReturn line :: Text.lines rest := by
    rw [Text.lines, pieces, List.map_cons, stripTerminator_dropReturn, Text.lines]
  have some' : line ++ '\n' :: rest ≠ [] := by simp
  unfold splitLines
  rw [if_neg some', split]
  by_cases empty : rest = []
  · have ended : Text.EndsInLine (line ++ '\n' :: rest) := by simp [Text.EndsInLine, empty]
    rw [if_pos ended, if_pos empty, empty]
    rfl
  · have same : Text.EndsInLine (line ++ '\n' :: rest) ↔ Text.EndsInLine rest := by
      unfold Text.EndsInLine
      rw [List.getLast?_append_of_ne_nil _ (by simp), List.getLast?_cons_of_ne_nil empty]
    rw [if_neg empty]
    by_cases ended : Text.EndsInLine rest
    · rw [if_pos (same.mpr ended), if_pos ended]
      rfl
    · rw [if_neg (same.not.mpr ended), if_neg ended]

theorem splitLines_joinLines {parts : List Text} (some' : parts ≠ []) (unsplit : ∀ line ∈ parts, '\n' ∉ line) :
    splitLines (Text.joinLines parts) = dropReturns parts := by
  induction parts with
  | nil => exact absurd rfl some'
  | cons first rest ih =>
      have head := unsplit first List.mem_cons_self
      cases rest with
      | nil =>
          rw [Text.joinLines_singleton]
          exact splitLines_single head
      | cons second rest =>
          have tail := ih (by simp) fun line member => unsplit line (List.mem_cons_of_mem _ member)
          rw [Text.joinLines_cons_cons, splitLines_cons _ _ head, tail]
          rfl

theorem splitLines_eq (content : Text) : splitLines content = dropReturns (rawLines content) := by
  have split := splitLines_joinLines (List.splitOn_ne_nil '\n' content) (rawLines_unsplit content)
  rwa [show Text.joinLines (content.splitOn '\n') = content from joinLines_rawLines content] at split

theorem dropReturns_length (parts : List Text) : (dropReturns parts).length = parts.length := by
  induction parts with
  | nil => rfl
  | cons first rest ih =>
      cases rest with
      | nil => rfl
      | cons second rest => simp [dropReturns, ih]

theorem dropReturns_getElem? (parts : List Text) (i : Nat) (ended : i + 1 < parts.length) :
    (dropReturns parts)[i]? = parts[i]?.map dropReturn := by
  induction parts generalizing i with
  | nil => simp at ended
  | cons first rest ih =>
      cases rest with
      | nil => simp at ended
      | cons second rest =>
          cases i with
          | zero => simp [dropReturns]
          | succ i =>
              rw [List.length_cons] at ended
              simpa [dropReturns] using ih i (by omega)

theorem dropReturn_subset (line : Text) : dropReturn line ⊆ line := by
  unfold dropReturn
  split
  · exact List.dropLast_subset line
  · exact List.Subset.refl line

theorem dropReturn_eq_self (line : Text) : dropReturn line = line ↔ line.getLast? ≠ some '\r' := by
  unfold dropReturn
  constructor
  · intro same ended
    rw [if_pos ended] at same
    have shorter := congrArg List.length same
    rw [List.length_dropLast] at shorter
    cases line with
    | nil => simp at ended
    | cons c rest => simp at shorter
  · exact fun plain => if_neg plain

theorem splitLines_unsplit (content : Text) : ∀ line ∈ splitLines content, '\n' ∉ line := by
  have each : ∀ parts : List Text, (∀ line ∈ parts, '\n' ∉ line) → ∀ line ∈ dropReturns parts, '\n' ∉ line := by
    intro parts unsplit
    induction parts with
    | nil => simp [dropReturns]
    | cons first rest ih =>
        cases rest with
        | nil => exact unsplit
        | cons second rest =>
            intro line member
            rcases List.mem_cons.mp member with rfl | later
            · exact fun within => unsplit first List.mem_cons_self (dropReturn_subset first within)
            · exact ih (fun other within => unsplit other (List.mem_cons_of_mem _ within)) line later
  rw [splitLines_eq]
  exact each _ (rawLines_unsplit content)

theorem lines_unsplit (content : Text) : ∀ line ∈ Text.lines content, '\n' ∉ line := by
  intro line member
  obtain ⟨piece, within, rfl⟩ := List.mem_map.mp member
  obtain ⟨front, back, shape⟩ := List.append_of_mem within
  have pieces := Text.splitInclusive_pieces content
  rw [shape] at pieces
  exact Text.stripTerminator_piece
    (Text.pieces_head (Text.pieces_suffix (List.suffix_append front _) pieces)).2

end Lines

section Resolved

def ResolvedOp.edit (op : ResolvedOp) : Edit Text := ⟨op.start, op.stop, op.newLines⟩

variable {scheme : AnchorScheme} {lines : List Text}

theorem validateAnchor_inside {anchor : Text} {line : Nat}
    (valid : validateAnchor anchor lines scheme = .ok line) : line < lines.length := by
  unfold validateAnchor at valid
  dsimp only at valid
  split at valid
  · simp at valid
  next parsed found =>
    split at valid
    next accepted =>
      have inside := scheme.valid_inside parsed lines accepted
      have same : parsed.line - 1 = line := Except.ok.inj valid
      omega
    · simp at valid
    · simp at valid

theorem bind_ok {E A B : Type} {x : Except E A} {f : A → Except E B} {b : B} (done : x >>= f = .ok b) :
    ∃ a, x = .ok a ∧ f a = .ok b := by
  cases x with
  | error e => cases done
  | ok a => exact ⟨a, rfl, done⟩

theorem resolveEnd_inside {endAnchor : Option Text} {start stop : Nat} (inside : start < lines.length)
    (resolved : resolveEnd endAnchor start lines scheme = .ok stop) : start < stop ∧ stop ≤ lines.length := by
  cases endAnchor with
  | none =>
      obtain rfl : start + 1 = stop := Except.ok.inj resolved
      omega
  | some anchor =>
      obtain ⟨last, valid, resolved⟩ := bind_ok resolved
      have below := validateAnchor_inside valid
      split at resolved
      · simp at resolved
      · obtain rfl : last + 1 = stop := Except.ok.inj resolved
        omega

theorem insertionPoint_inside {anchor : Text} {point : Nat}
    (resolved : insertionPoint anchor lines scheme = .ok point) : point ≤ lines.length := by
  unfold insertionPoint at resolved
  split at resolved
  · obtain rfl : 0 = point := Except.ok.inj resolved
    exact Nat.zero_le _
  split at resolved
  · split at resolved
    · obtain rfl : lines.length - 1 = point := Except.ok.inj resolved
      exact Nat.sub_le _ _
    · obtain rfl : lines.length = point := Except.ok.inj resolved
      exact le_refl _
  · obtain ⟨line, valid, resolved⟩ := bind_ok resolved
    obtain rfl : line + 1 = point := Except.ok.inj resolved
    exact validateAnchor_inside valid

structure Sound (lines : List Text) (op : ResolvedOp) : Prop where
  forward : op.start ≤ op.stop
  inside : op.stop ≤ lines.length
  unsplit : ∀ line ∈ op.newLines, '\n' ∉ line

theorem resolveOp_sound {op : HashlineOp} {idx : Nat}
    {resolved : ResolvedOp} (done : resolveOp op idx lines scheme = .ok resolved) :
    Sound lines resolved ∧ resolved.originalIdx = idx := by
  cases op with
  | replace anchor endAnchor content =>
      obtain ⟨start, valid, done⟩ := bind_ok done
      obtain ⟨stop, ended, done⟩ := bind_ok done
      obtain ⟨-, -, done⟩ := bind_ok done
      obtain rfl := Except.ok.inj done
      obtain ⟨forward, inside⟩ := resolveEnd_inside (validateAnchor_inside valid) ended
      refine ⟨⟨forward.le, inside, ?_⟩, rfl⟩
      intro line member
      dsimp only at member
      split at member
      · simp at member
      · exact lines_unsplit content line member
  | insertAfter anchor content =>
      obtain ⟨point, found, done⟩ := bind_ok done
      obtain ⟨-, -, done⟩ := bind_ok done
      obtain rfl := Except.ok.inj done
      refine ⟨⟨le_refl _, insertionPoint_inside found, ?_⟩, rfl⟩
      intro line member
      dsimp only at member
      split at member
      · simp [List.mem_singleton.mp member]
      · exact lines_unsplit content line member
  | write content => simp [resolveOp] at done

theorem resolveOpsFrom_sound {total idx : Nat} {ops : List HashlineOp} {resolved : List ResolvedOp}
    (done : resolveOpsFrom total lines scheme idx ops = .ok resolved) :
    (∀ op ∈ resolved, Sound lines op ∧ idx ≤ op.originalIdx) ∧
      resolved.Pairwise fun first second => first.originalIdx < second.originalIdx := by
  induction ops generalizing idx resolved with
  | nil =>
      obtain rfl : [] = resolved := Except.ok.inj done
      simp
  | cons op rest ih =>
      unfold resolveOpsFrom at done
      split at done
      · simp at done
      next first one =>
        split at done
        · simp at done
        next more later =>
          obtain rfl : first :: more = resolved := Except.ok.inj done
          obtain ⟨sound, index⟩ := resolveOp_sound one
          obtain ⟨each, increasing⟩ := ih later
          constructor
          · intro other member
            rcases List.mem_cons.mp member with rfl | within
            · exact ⟨sound, index.ge⟩
            · have behind := each other within
              exact ⟨behind.1, by omega⟩
          · refine List.pairwise_cons.mpr ⟨?_, increasing⟩
            intro other within
            have behind := (each other within).2
            omega

end Resolved

section TopDown

def topDown (resolved : List ResolvedOp) : List ResolvedOp := (resolved.insertionSort bottomUp).reverse

instance : Std.Total bottomUp := ⟨fun a b => by
  unfold bottomUp
  omega⟩

instance : IsTrans ResolvedOp bottomUp := ⟨fun a b c first second => by
  unfold bottomUp at *
  omega⟩

def Precedes (a b : ResolvedOp) : Prop := a.start < b.start ∨ (a.start = b.start ∧ a.originalIdx < b.originalIdx)

instance : DecidableRel Precedes := fun a b =>
  inferInstanceAs (Decidable (a.start < b.start ∨ (a.start = b.start ∧ a.originalIdx < b.originalIdx)))

theorem topDown_perm (resolved : List ResolvedOp) : (topDown resolved).Perm resolved :=
  (List.reverse_perm _).trans (List.perm_insertionSort _ _)

variable {lines : List Text} {resolved : List ResolvedOp}

theorem topDown_precedes
    (increasing : resolved.Pairwise fun first second => first.originalIdx < second.originalIdx) :
    (topDown resolved).Pairwise Precedes := by
  have sorted : (topDown resolved).Pairwise fun a b => bottomUp b a :=
    List.pairwise_reverse.mpr (List.pairwise_insertionSort bottomUp resolved)
  have distinct : (topDown resolved).Pairwise fun a b => a.originalIdx ≠ b.originalIdx :=
    ((topDown_perm resolved).pairwise_iff fun apart => Ne.symm apart).mpr
      (increasing.imp fun before => Nat.ne_of_lt before)
  apply (sorted.and distinct).imp
  rintro a b ⟨order, apart⟩
  unfold bottomUp at order
  unfold Precedes
  omega

theorem topDown_startsAt
    (increasing : resolved.Pairwise fun first second => first.originalIdx < second.originalIdx) (i : Nat) :
    (topDown resolved).filter (fun op => op.start = i) = resolved.filter fun op => op.start = i := by
  -- Sorting keeps the requests at one line in their order.
  have sorted : ((topDown resolved).filter fun op => op.start = i).Pairwise
      fun first second => first.originalIdx < second.originalIdx := by
    have filtered := (topDown_precedes increasing).filter (fun op : ResolvedOp => decide (op.start = i))
    apply filtered.imp_of_mem
    intro a b first second order
    have here := of_decide_eq_true (List.mem_filter.mp first).2
    have here' := of_decide_eq_true (List.mem_filter.mp second).2
    unfold Precedes at order
    omega
  have asked : (resolved.filter fun op => op.start = i).Pairwise
      fun first second => first.originalIdx < second.originalIdx :=
    increasing.filter _
  apply List.Perm.eq_of_pairwise _ sorted asked ((topDown_perm resolved).filter _)
  intro a b _ _ before after
  omega

theorem startsAt_edits (ops : List ResolvedOp) (i : Nat) :
    startsAt (ops.map ResolvedOp.edit) i = (ops.filter fun op => op.start = i).map ResolvedOp.edit := by
  unfold startsAt
  rw [List.filter_map]
  rfl

def Apart (a b : ResolvedOp) : Prop := a.stop ≤ b.start ∨ b.stop ≤ a.start

theorem overlappingWindow_none {ranges : List ResolvedOp} (none' : overlappingWindow ranges = none)
    (forward : ∀ op ∈ ranges, op.start ≤ op.stop) : ranges.Pairwise fun first second => first.stop ≤ second.start := by
  induction ranges with
  | nil => exact List.Pairwise.nil
  | cons first rest ih =>
      cases rest with
      | nil => simp
      | cons second rest =>
          unfold overlappingWindow at none'
          split at none'
          · simp at none'
          next apart =>
            have later := ih none' fun op member => forward op (List.mem_cons_of_mem _ member)
            refine List.pairwise_cons.mpr ⟨?_, later⟩
            intro op member
            have order := forward second (by simp)
            rcases List.mem_cons.mp member with rfl | behind
            · omega
            · have next := (List.pairwise_cons.mp later).1 op behind
              omega

theorem insertionInside_none {ranges ops : List ResolvedOp} (none' : insertionInside ranges ops = none) :
    ∀ op ∈ ops, op.start = op.stop → ∀ range ∈ ranges, ¬ (range.start ≤ op.start ∧ op.start < range.stop) := by
  induction ops with
  | nil => simp
  | cons first rest ih =>
      unfold insertionInside at none'
      intro op member insertion range within inside
      split at none'
      next isInsertion =>
        split at none'
        · simp at none'
        next clear =>
          rcases List.mem_cons.mp member with rfl | later
          · have outside := List.find?_eq_none.mp clear range within
            simp only [Bool.and_eq_true, decide_eq_true_eq] at outside
            exact outside inside
          · exact ih none' op later insertion range within inside
      next isRange =>
        rcases List.mem_cons.mp member with rfl | later
        · simp [ResolvedOp.isInsertion, insertion] at isRange
        · exact ih none' op later insertion range within inside

theorem checkOverlaps_none (clear : checkOverlaps resolved = none) (sound : ∀ op ∈ resolved, Sound lines op) :
    (rangesByStart resolved).Pairwise Apart ∧
      ∀ op ∈ resolved, op.start = op.stop → ∀ range ∈ resolved, ¬ (range.start ≤ op.start ∧ op.start < range.stop) := by
  have perm : (rangesByStart resolved).Perm (resolved.filter fun op => !op.isInsertion) :=
    List.perm_insertionSort _ _
  have forward : ∀ op ∈ rangesByStart resolved, op.start ≤ op.stop := by
    intro op member
    exact (sound op (List.mem_of_mem_filter (perm.mem_iff.mp member))).forward
  unfold checkOverlaps at clear
  split at clear
  · simp at clear
  next apart =>
    rw [Option.map_eq_none_iff] at clear
    constructor
    · exact (overlappingWindow_none apart forward).imp Or.inl
    · intro op member insertion range within inside
      have nonempty : range.isInsertion = false := by
        unfold ResolvedOp.isInsertion
        exact beq_eq_false_iff_ne.mpr (by omega)
      have listed : range ∈ rangesByStart resolved :=
        perm.mem_iff.mpr (List.mem_filter.mpr ⟨within, by rw [nonempty]; rfl⟩)
      exact insertionInside_none clear op member insertion range listed inside

theorem topDown_ordered (clear : checkOverlaps resolved = none) (sound : ∀ op ∈ resolved, Sound lines op)
    (increasing : resolved.Pairwise fun first second => first.originalIdx < second.originalIdx) :
    Ordered lines.length ((topDown resolved).map ResolvedOp.edit) := by
  -- Operations that pass the check are apart when they are read from the top down.
  obtain ⟨ranges, insertions⟩ := checkOverlaps_none clear sound
  have members : ∀ op ∈ topDown resolved, op ∈ resolved := fun op => (topDown_perm resolved).mem_iff.mp
  constructor
  · intro edit member
    obtain ⟨op, within, rfl⟩ := List.mem_map.mp member
    have good := sound op (members op within)
    exact ⟨good.forward, good.inside⟩
  · rw [List.pairwise_map]
    have rangesApart : (topDown resolved).Pairwise fun a b =>
        (!a.isInsertion) = true → (!b.isInsertion) = true → Apart a b := by
      rw [← List.pairwise_filter]
      have perm : ((topDown resolved).filter fun op => !op.isInsertion).Perm (rangesByStart resolved) :=
        ((topDown_perm resolved).filter _).trans (List.perm_insertionSort _ _).symm
      exact (perm.pairwise_iff fun apart => Or.symm apart).mpr ranges
    apply (rangesApart.and (topDown_precedes increasing)).imp_of_mem
    rintro a b first second ⟨apart, order⟩
    have goodA := (sound a (members a first)).forward
    have goodB := (sound b (members b second)).forward
    have above : a.start ≤ b.start := by
      unfold Precedes at order
      omega
    change a.stop ≤ b.start
    by_cases insertionA : a.start = a.stop
    · omega
    by_cases insertionB : b.start = b.stop
    · have outside := insertions b (members b second) insertionB a (members a first)
      omega
    · have both := apart (by simp [ResolvedOp.isInsertion, insertionA])
        (by simp [ResolvedOp.isInsertion, insertionB])
      unfold Apart at both
      omega

theorem topDown_substituted
    (increasing : resolved.Pairwise fun first second => first.originalIdx < second.originalIdx) :
    substituted lines ((topDown resolved).map ResolvedOp.edit) = substituted lines (resolved.map ResolvedOp.edit) := by
  apply substituted_congr
  intro i
  rw [startsAt_edits, startsAt_edits, topDown_startsAt increasing]

theorem spliced_substituted (clear : checkOverlaps resolved = none) (sound : ∀ op ∈ resolved, Sound lines op)
    (increasing : resolved.Pairwise fun first second => first.originalIdx < second.originalIdx) :
    (resolved.insertionSort bottomUp).foldl spliceOp lines =
      substituted lines (resolved.map ResolvedOp.edit) := by
  have ordered := topDown_ordered clear sound increasing
  have splices := splices_substitute lines ordered
  rw [topDown_substituted increasing] at splices
  rw [← splices, List.foldr_map, topDown, List.foldr_reverse]
  rfl

end TopDown

section Details

def earlier (resolved : List ResolvedOp) (op : ResolvedOp) : List ResolvedOp :=
  resolved.filter fun other => Precedes other op

def inFront (lines : List Text) (resolved : List ResolvedOp) (op : ResolvedOp) : List Text :=
  substituted (lines.take op.start) ((earlier resolved op).map ResolvedOp.edit)

def detailOf (lines : List Text) (resolved : List ResolvedOp) (op : ResolvedOp) : EditRegionDetail :=
  { oldLine := op.start + 1
    oldText := Text.joinLines ((lines.drop op.start).take (op.stop - op.start))
    newLine := (inFront lines resolved op).length + 1
    newText := Text.joinLines op.newLines }

variable {lines : List Text} {resolved : List ResolvedOp}

theorem inFront_above
    (increasing : resolved.Pairwise fun first second => first.originalIdx < second.originalIdx)
    {above below : List ResolvedOp} {op : ResolvedOp} (split : topDown resolved = above ++ op :: below) :
    substituted (lines.take op.start) (above.map ResolvedOp.edit) = inFront lines resolved op := by
  have sorted := topDown_precedes increasing
  rw [split] at sorted
  obtain ⟨-, after, before⟩ := List.pairwise_append.mp sorted
  -- Precisely the operations above come in front.
  have first : above.filter (fun other => decide (Precedes other op)) = above :=
    List.filter_eq_self.mpr fun other member =>
      decide_eq_true (before other member op List.mem_cons_self)
  have rest : (op :: below).filter (fun other => decide (Precedes other op)) = [] := by
    apply List.filter_eq_nil_iff.mpr
    intro other member
    rw [decide_eq_true_eq]
    rcases List.mem_cons.mp member with rfl | later
    · unfold Precedes
      omega
    · have order := (List.pairwise_cons.mp after).1 other later
      unfold Precedes at *
      omega
  have above' : (topDown resolved).filter (fun other => decide (Precedes other op)) = above := by
    rw [split, List.filter_append, first, rest, List.append_nil]
  apply substituted_congr
  intro i
  rw [startsAt_edits, startsAt_edits, ← above', earlier, List.filter_comm, topDown_startsAt increasing,
    List.filter_comm]

theorem details_eq (ordered : Ordered lines.length ((topDown resolved).map ResolvedOp.edit))
    (increasing : resolved.Pairwise fun first second => first.originalIdx < second.originalIdx)
    (above below : List ResolvedOp) (split : topDown resolved = above ++ below) :
    (regionsAndDetails lines (shift (above.map ResolvedOp.edit)) below).map Prod.snd =
      below.map (detailOf lines resolved) := by
  induction below generalizing above with
  | nil => rfl
  | cons op below ih =>
      rw [split, List.map_append, List.map_cons] at ordered
      have inside := (ordered.forward op.edit (by simp)).2
      have forward := (ordered.forward op.edit (by simp)).1
      change op.stop ≤ lines.length at inside
      change op.start ≤ op.stop at forward
      have count : (lines.take op.start).length = op.start := by
        rw [List.length_take]
        omega
      have front : Ordered (lines.take op.start).length (above.map ResolvedOp.edit) := by
        rw [count]
        exact ordered.above
      have counted := substituted_length (lines.take op.start) front
      rw [inFront_above increasing split, count] at counted
      have later := ih (above ++ [op]) (by rw [split]; simp)
      have moved : shift ((above ++ [op]).map ResolvedOp.edit) =
          shift (above.map ResolvedOp.edit) + op.newLines.length - (op.stop - op.start : Nat) := by
        simp [shift, ResolvedOp.edit]
        omega
      rw [moved] at later
      have start : ((op.start : Int) + shift (above.map ResolvedOp.edit)).toNat =
          (inFront lines resolved op).length := by
        rw [← counted]
        rfl
      have oldText : (if op.start < op.stop then
            Text.joinLines ((lines.drop op.start).take (op.stop - op.start)) else []) =
          Text.joinLines ((lines.drop op.start).take (op.stop - op.start)) := by
        split
        · rfl
        · rw [show op.stop - op.start = 0 by omega]
          rfl
      rw [regionsAndDetails, List.map_cons, List.map_cons, later, start, oldText]
      rfl

theorem placed_in_front (ordered : Ordered lines.length ((topDown resolved).map ResolvedOp.edit))
    (increasing : resolved.Pairwise fun first second => first.originalIdx < second.originalIdx)
    {op : ResolvedOp} (member : op ∈ resolved) :
    inFront lines resolved op ++ op.newLines <+: substituted lines (resolved.map ResolvedOp.edit) := by
  obtain ⟨above, below, split⟩ := List.append_of_mem ((topDown_perm resolved).mem_iff.mpr member)
  rw [← topDown_substituted increasing]
  rw [split, List.map_append, List.map_cons] at ordered ⊢
  rw [substituted_append lines ordered]
  change _ <+: substituted (lines.take op.start) (above.map ResolvedOp.edit) ++ op.newLines ++ _
  rw [inFront_above increasing split]
  exact List.prefix_append _ _

end Details

section Batches

/-- The new file is the old one with every range exchanged at once: its lines, the line ends of the
lines that stay, and where the report says that the new lines start. -/
structure SubstitutesSnapshot (content : Text) (resolved : List ResolvedOp) (newContent : Text)
    (editDetails : List EditRegionDetail) : Prop where
  substitutes : rawLines newContent = substituted (splitLines content) (resolved.map ResolvedOp.edit)
  keepsLines : ∀ i, ¬ Covered (resolved.map ResolvedOp.edit) i → i + 1 < (rawLines content).length →
    let position := keptPosition (splitLines content) (resolved.map ResolvedOp.edit) i
    position + 1 < (rawLines newContent).length →
      (rawLines newContent)[position]? = (rawLines content)[i]?
  details : editDetails = (topDown resolved).map (detailOf (splitLines content) resolved)
  startsThere : ∀ op ∈ resolved, inFront (splitLines content) resolved op ++ op.newLines <+: rawLines newContent

def SomethingFrom (lines : List Text) (resolved : List ResolvedOp) (first : Nat) : Prop :=
  (∃ i, first ≤ i ∧ i < lines.length ∧ ¬ Covered (resolved.map ResolvedOp.edit) i) ∨
    ∃ op ∈ resolved, first ≤ op.start ∧ op.newLines ≠ []

/-- Some line is left, and no line that stays in front of another ends in a carriage return. -/
def PlainFrame (content : Text) (resolved : List ResolvedOp) : Prop :=
  SomethingFrom (splitLines content) resolved 0 ∧
    ∀ i line, ¬ Covered (resolved.map ResolvedOp.edit) i → i + 1 < (rawLines content).length →
      (rawLines content)[i]? = some line → SomethingFrom (splitLines content) resolved (i + 1) →
        line.getLast? ≠ some '\r'

variable {resolved : List ResolvedOp}

theorem somethingFrom_iff {lines : List Text} (sound : ∀ op ∈ resolved, Sound lines op) (first : Nat) :
    SomethingFrom lines resolved first ↔ placedFrom lines (resolved.map ResolvedOp.edit) first ≠ [] := by
  have forward : ∀ edit ∈ resolved.map ResolvedOp.edit, edit.start ≤ edit.stop ∧ edit.start ≤ lines.length := by
    intro edit member
    obtain ⟨op, within, rfl⟩ := List.mem_map.mp member
    have good := sound op within
    exact ⟨good.forward, good.forward.trans good.inside⟩
  rw [ne_eq, placedFrom_eq_nil lines forward, not_and_or]
  unfold SomethingFrom
  constructor
  · rintro (⟨i, from', inside, uncovered⟩ | ⟨op, member, from', some'⟩)
    · exact .inl fun all => uncovered (all i from' inside)
    · exact .inr fun all => some' (all op.edit (List.mem_map_of_mem member) from')
  · rintro (left | right)
    · push Not at left
      exact .inl left
    · push Not at right
      obtain ⟨edit, member, from', some'⟩ := right
      obtain ⟨op, within, rfl⟩ := List.mem_map.mp member
      exact .inr ⟨op, within, from', some'⟩

theorem substituted_unsplit {content : Text} (sound : ∀ op ∈ resolved, Sound (splitLines content) op) :
    ∀ line ∈ substituted (splitLines content) (resolved.map ResolvedOp.edit), '\n' ∉ line := by
  intro line member
  rcases mem_substituted member with old | ⟨edit, within, brought⟩
  · exact splitLines_unsplit content line old
  · obtain ⟨op, there, rfl⟩ := List.mem_map.mp within
    exact (sound op there).unsplit line brought

theorem kept_line {content : Text} (resolved : List ResolvedOp) {i : Nat} {line : Text}
    (uncovered : ¬ Covered (resolved.map ResolvedOp.edit) i) (ended : i + 1 < (rawLines content).length)
    (shape : (rawLines content)[i]? = some line) :
    let position := keptPosition (splitLines content) (resolved.map ResolvedOp.edit) i
    (substituted (splitLines content) (resolved.map ResolvedOp.edit))[position]? = some (dropReturn line) ∧
      (position + 1 < (substituted (splitLines content) (resolved.map ResolvedOp.edit)).length ↔
        placedFrom (splitLines content) (resolved.map ResolvedOp.edit) (i + 1) ≠ []) := by
  -- A line that stays stands in the new list without the carriage return at its end.
  intro position
  have inside : i < (splitLines content).length := by
    rw [splitLines_eq, dropReturns_length]
    omega
  have old : (splitLines content)[i]? = some (dropReturn line) := by
    rw [splitLines_eq, dropReturns_getElem? _ _ ended, shape]
    rfl
  have same : (splitLines content)[i] = dropReturn line := by
    rw [List.getElem?_eq_getElem inside] at old
    exact Option.some.inj old
  rw [substituted_keeps (splitLines content) _ inside uncovered, same]
  constructor
  · unfold position keptPosition
    rw [List.getElem?_append_right (le_refl _)]
    simp
  · rw [List.length_append, List.length_cons]
    change position + 1 < position + _ ↔ _
    rw [← List.length_pos_iff]
    omega

theorem substitutes_iff {content : Text}
    (sound : ∀ op ∈ resolved, Sound (splitLines content) op) (clear : checkOverlaps resolved = none)
    (increasing : resolved.Pairwise fun first second => first.originalIdx < second.originalIdx) :
    SubstitutesSnapshot content resolved
        (Text.joinLines ((resolved.insertionSort bottomUp).foldl spliceOp (splitLines content)))
        ((regionsAndDetails (splitLines content) 0 (topDown resolved)).map Prod.snd) ↔
      PlainFrame content resolved := by
  rw [spliced_substituted clear sound increasing]
  have ordered := topDown_ordered clear sound increasing
  have unsplit := substituted_unsplit sound
  have left := somethingFrom_iff sound 0
  constructor
  · rintro ⟨substitutes, keepsLines, -, -⟩
    constructor
    · rw [left]
      intro empty
      have none' : substituted (splitLines content) (resolved.map ResolvedOp.edit) = [] := empty
      rw [none'] at substitutes
      exact List.splitOn_ne_nil _ _ substitutes
    · intro i line uncovered ended shape follows
      obtain ⟨there, behind⟩ := kept_line resolved uncovered ended shape
      have more := behind.mpr ((somethingFrom_iff sound (i + 1)).mp follows)
      have same := keepsLines i uncovered ended (by rw [substitutes]; exact more)
      rw [substitutes, there, shape] at same
      exact (dropReturn_eq_self line).mp (Option.some.inj same)
  · rintro ⟨some', plain⟩
    have nonempty : substituted (splitLines content) (resolved.map ResolvedOp.edit) ≠ [] := left.mp some'
    have read := rawLines_joinLines nonempty unsplit
    refine ⟨read, ?_, ?_, ?_⟩
    · intro i uncovered ended position more
      obtain ⟨line, shape⟩ : ∃ line, (rawLines content)[i]? = some line :=
        ⟨_, List.getElem?_eq_getElem (Nat.lt_of_succ_lt ended)⟩
      obtain ⟨there, behind⟩ := kept_line resolved uncovered ended shape
      rw [read] at more ⊢
      have follows := (somethingFrom_iff sound (i + 1)).mpr (behind.mp more)
      rw [there, shape, (dropReturn_eq_self line).mpr (plain i line uncovered ended shape follows)]
    · exact details_eq ordered increasing [] (topDown resolved) rfl
    · intro op member
      rw [read]
      exact placed_in_front ordered increasing member

def HashlineOp.isWrite : HashlineOp → Bool
  | write _ => true
  | replace _ _ _ | insertAfter _ _ => false

theorem applyEdits_batch (content : Text) {ops : List HashlineOp} (filePath : Text) (scheme : AnchorScheme)
    (batch : ∀ op ∈ ops, op.isWrite = false) :
    applyEdits content ops filePath scheme = applyBatch content ops filePath scheme := by
  unfold applyEdits
  split
  next newContent =>
    have write := batch (.write newContent) List.mem_cons_self
    simp [HashlineOp.isWrite] at write
  · rfl

/-- A batch that goes through replaces all ranges of the old file at once, and the lines around them keep
their ends, exactly when none of these ends in a carriage return and something is left. -/
theorem batch_substitutes_iff {content : Text} {ops : List HashlineOp} {filePath : Text}
    {scheme : AnchorScheme} {newContent : Text} (batch : ∀ op ∈ ops, op.isWrite = false)
    (applied : (applyEdits content ops filePath scheme).newContent = some newContent) :
    ∃ resolved, resolveOps ops (splitLines content) scheme = .ok resolved ∧
      (SubstitutesSnapshot content resolved newContent (applyEdits content ops filePath scheme).editDetails ↔
        PlainFrame content resolved) := by
  rw [applyEdits_batch content filePath scheme batch] at applied ⊢
  unfold applyBatch at applied ⊢
  dsimp only at applied ⊢
  split at applied
  · simp [ApplyResult.failed] at applied
  next resolved done =>
    split at applied
    · simp [ApplyResult.failed] at applied
    next clear =>
      obtain ⟨each, increasing⟩ := resolveOpsFrom_sound done
      obtain rfl := Option.some.inj applied
      refine ⟨resolved, done, ?_⟩
      exact substitutes_iff (fun op member => (each op member).1) clear increasing

def headlineScheme : AnchorScheme := ContentOnly.scheme ⟨3, by decide⟩

-- Two lines become one, with two more behind it and one above everything else.
def regrouping : List HashlineOp :=
  [.insertAfter "3:qkc".toList ['x'], .replace "2:rby".toList (some "3:qkc".toList) ['B'],
    .insertAfter "0:".toList ['t'], .insertAfter "3:qkc".toList ['y']]

theorem batch_substitutes_iff_regrouping :
    ∃ resolved, resolveOps regrouping (splitLines "a\nb\nc\nd\n".toList) headlineScheme = .ok resolved ∧
      (SubstitutesSnapshot "a\nb\nc\nd\n".toList resolved "t\na\nB\nx\ny\nd\n".toList
          (applyEdits "a\nb\nc\nd\n".toList regrouping [] headlineScheme).editDetails ↔
        PlainFrame "a\nb\nc\nd\n".toList resolved) :=
  batch_substitutes_iff (by decide) (by decide +kernel)

-- A line above everything else.
def headline : List HashlineOp := [.insertAfter "0:".toList ['x']]

theorem inserting_drops_carriage_return :
    ¬ ∀ (content : Text) (ops : List HashlineOp) (filePath : Text) (scheme : AnchorScheme) (newContent : Text)
      (resolved : List ResolvedOp), (∀ op ∈ ops, op.isWrite = false) →
      (applyEdits content ops filePath scheme).newContent = some newContent →
      resolveOps ops (splitLines content) scheme = .ok resolved →
      SubstitutesSnapshot content resolved newContent (applyEdits content ops filePath scheme).editDetails := by
  intro claim
  have whole := claim "a\r\nb".toList headline [] headlineScheme "x\na\nb".toList [⟨0, 0, 0, [['x']]⟩]
    (by decide) (by decide +kernel) (by decide +kernel)
  have kept := whole.keepsLines 0 (by decide) (by decide +kernel) (by decide +kernel)
  exact absurd kept (by decide +kernel)

end Batches

end GrokPi.Hashline
