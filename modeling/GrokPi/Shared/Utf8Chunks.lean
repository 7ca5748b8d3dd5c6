import Mathlib
import GrokPi.Shared.Utf8

set_option autoImplicit false

namespace Text

section Weights

def isWide (c : Char) : Bool := 128 ≤ c.toNat

def wide (text : Text) : Nat := text.countP isWide

def newlines (text : Text) : Nat := text.count '\n'

@[simp] theorem wide_nil : wide [] = 0 := rfl

@[simp] theorem wide_append (first second : Text) :
    wide (first ++ second) = wide first + wide second := by
  simp [wide]

theorem wide_cons (c : Char) (text : Text) :
    wide (c :: text) = (if isWide c then 1 else 0) + wide text := by
  simp [wide, List.countP_cons, Nat.add_comm]

@[simp] theorem newlines_nil : newlines [] = 0 := rfl

@[simp] theorem newlines_append (first second : Text) :
    newlines (first ++ second) = newlines first + newlines second := by
  simp [newlines]

def isLead (byte : UInt8) : Bool := 0xC0 ≤ byte

def isFollow (byte : UInt8) : Bool := 0x80 ≤ byte && byte < 0xC0

theorem follow_not_lead {byte : UInt8} (follow : isFollow byte = true) : isLead byte = false := by
  simp only [isFollow, isLead, Bool.and_eq_true, decide_eq_true_eq, decide_eq_false_iff_not,
    UInt8.not_le] at follow ⊢
  exact follow.2

theorem follow_not_newline {byte : UInt8} (follow : isFollow byte = true) : byte ≠ 10 := by
  rintro rfl
  exact absurd follow (by decide)

theorem isFollow_ofNat (n : Nat) : isFollow (UInt8.ofNat (n % 64 + 128)) = true := by
  have small : n % 64 < 64 := Nat.mod_lt _ (by decide)
  simp only [isFollow, Bool.and_eq_true, decide_eq_true_eq, UInt8.le_iff_toNat_le,
    UInt8.lt_iff_toNat_lt, UInt8.toNat_ofNat']
  constructor
  · show 128 ≤ _
    omega
  · show _ < 192
    omega

theorem utf8EncodeChar_shape (c : Char) : ∃ first rest, String.utf8EncodeChar c = first :: rest ∧
    isFollow first = false ∧ isLead first = isWide c ∧ (first = 10 ↔ c = '\n') ∧
    (isWide c = false → rest = []) ∧ ∀ byte ∈ rest, isFollow byte = true := by
  have value : c.val.toNat = c.toNat := rfl
  have top : c.toNat < 0x110000 := by
    have valid := c.valid
    simp only [UInt32.isValidChar, Nat.isValidChar] at valid
    omega
  have newline : c = '\n' ↔ c.toNat = 10 := by
    constructor
    · rintro rfl
      rfl
    · intro ten
      exact Char.toNat_inj.mp ten
  -- a first byte is read off its number
  have shape : ∀ n : Nat, n < 256 → (n < 128 ∨ 192 ≤ n) → (128 ≤ c.toNat ↔ 192 ≤ n) →
      (n = 10 ↔ c.toNat = 10) →
      isFollow (UInt8.ofNat n) = false ∧ isLead (UInt8.ofNat n) = isWide c ∧
        (UInt8.ofNat n = 10 ↔ c = '\n') := by
    intro n small range wide ten
    have same : (UInt8.ofNat n).toNat = n := by simp [Nat.mod_eq_of_lt small]
    refine ⟨?_, ?_, ?_⟩
    · rw [Bool.eq_false_iff]
      simp only [isFollow, Bool.and_eq_true, decide_eq_true_eq, UInt8.le_iff_toNat_le,
        UInt8.lt_iff_toNat_lt, same, ne_eq, not_and]
      intro low high
      have low' : 128 ≤ n := low
      have high' : n < 192 := high
      omega
    · rw [Bool.eq_iff_iff]
      simp only [isLead, isWide, decide_eq_true_eq, UInt8.le_iff_toNat_le, same]
      exact wide.symm
    · rw [newline, ← ten, ← UInt8.toNat_inj, same]
      rfl
  rw [String.utf8EncodeChar.eq_1]
  simp only [value]
  split_ifs with one two three
  · obtain ⟨first, lead, isTen⟩ := shape c.toNat (by omega) (by omega) (by omega) Iff.rfl
    exact ⟨_, _, rfl, first, lead, isTen, fun _ => rfl, by simp⟩
  · obtain ⟨first, lead, isTen⟩ := shape (c.toNat / 64 % 32 + 192) (by omega) (by omega)
      (by omega) (by omega)
    refine ⟨_, _, rfl, first, lead, isTen, ?_, ?_⟩
    · intro narrow
      simp only [isWide, decide_eq_false_iff_not] at narrow
      omega
    · simp only [List.mem_singleton, forall_eq]
      exact isFollow_ofNat _
  · obtain ⟨first, lead, isTen⟩ := shape (c.toNat / 4096 % 16 + 224) (by omega) (by omega)
      (by omega) (by omega)
    refine ⟨_, _, rfl, first, lead, isTen, ?_, ?_⟩
    · intro narrow
      simp only [isWide, decide_eq_false_iff_not] at narrow
      omega
    · simp only [List.mem_cons, List.not_mem_nil, or_false, forall_eq_or_imp, forall_eq]
      exact ⟨isFollow_ofNat _, isFollow_ofNat _⟩
  · obtain ⟨first, lead, isTen⟩ := shape (c.toNat / 262144 % 8 + 240) (by omega) (by omega)
      (by omega) (by omega)
    refine ⟨_, _, rfl, first, lead, isTen, ?_, ?_⟩
    · intro narrow
      simp only [isWide, decide_eq_false_iff_not] at narrow
      omega
    · simp only [List.mem_cons, List.not_mem_nil, or_false, forall_eq_or_imp, forall_eq]
      exact ⟨isFollow_ofNat _, isFollow_ofNat _, isFollow_ofNat _⟩

end Weights

section Units

/-- A decoding, unit by unit. A broken unit holds one lead byte at most. -/
inductive Decodes : List UInt8 → Text → Prop where
  | done : Decodes [] []
  | char (c : Char) {bytes : List UInt8} {text : Text} :
      Decodes bytes text → Decodes (String.utf8EncodeChar c ++ bytes) (c :: text)
  | broken (first : UInt8) {lost bytes : List UInt8} {text : Text} :
      first ≠ 10 → (∀ byte ∈ lost, isFollow byte = true) →
      (isFollow first = true → lost = []) →
      Decodes bytes text → Decodes (first :: lost ++ bytes) ('\uFFFD' :: text)

theorem followCount_split (ranges : List (UInt8 × UInt8)) (bytes : List UInt8)
    (following : ∀ range ∈ ranges, 0x80 ≤ range.1 ∧ range.2 < 0xC0) :
    ∀ byte ∈ bytes.take (followCount ranges bytes), isFollow byte = true := by
  induction ranges generalizing bytes with
  | nil => simp [followCount]
  | cons range ranges ih =>
      cases bytes with
      | nil => simp [followCount]
      | cons byte bytes =>
          simp only [followCount]
          split
          · rename_i within
            rw [List.take_succ_cons]
            intro other member
            rcases List.mem_cons.mp member with rfl | later
            · have bounds := following range (by simp)
              simp only [isFollow, Bool.and_eq_true, decide_eq_true_eq]
              exact ⟨UInt8.le_trans bounds.1 within.1, UInt8.lt_of_le_of_lt within.2 bounds.2⟩
            · exact ih bytes (fun range member => following range (by simp [member])) other later
          · simp

theorem followRanges_following (first : UInt8) :
    ∀ range ∈ followRanges first, 0x80 ≤ range.1 ∧ range.2 < 0xC0 := by
  unfold followRanges
  split_ifs <;>
    simp only [List.mem_cons, List.not_mem_nil, or_false, forall_eq_or_imp, forall_eq,
      false_imp_iff, implies_true] <;>
    decide

theorem followRanges_follow {first : UInt8} (follow : isFollow first = true) :
    followRanges first = [] := by
  simp only [isFollow, Bool.and_eq_true, decide_eq_true_eq] at follow
  have below : first < 0xC0 := follow.2
  unfold followRanges
  split_ifs <;> grind

variable {bytes : List UInt8}

theorem decodeChar_split {c : Char} (decoded : bytes.toByteArray.utf8DecodeChar? 0 = some c) :
    ∃ rest, bytes = String.utf8EncodeChar c ++ rest ∧ bytes.drop c.utf8Size = rest := by
  obtain ⟨after, split⟩ := ByteArray.exists_of_utf8DecodeChar?_eq_some decoded
  have lists := congrArg (fun array => array.data.toList) split
  simp only [ByteArray.data_append, Array.toList_append, List.data_toByteArray] at lists
  refine ⟨after.data.toList, lists, ?_⟩
  rw [lists, ← String.length_utf8EncodeChar c, List.drop_left]

theorem decodes_lossy (fuel : Nat) (bytes : List UInt8) (enough : bytes.length ≤ fuel) :
    Decodes bytes (fromUtf8LossyFuel fuel bytes) := by
  induction fuel generalizing bytes with
  | zero =>
      have empty : bytes = [] := List.length_eq_zero_iff.mp (by omega)
      subst empty
      exact .done
  | succ fuel ih =>
      cases bytes with
      | nil => exact .done
      | cons first rest =>
          simp only [fromUtf8LossyFuel]
          cases decoded : (first :: rest).toByteArray.utf8DecodeChar? 0 with
          | some c =>
              obtain ⟨after, split, dropped⟩ := decodeChar_split decoded
              have size : (String.utf8EncodeChar c).length = c.utf8Size :=
                String.length_utf8EncodeChar c
              have positive := Char.utf8Size_pos c
              have lengths := congrArg List.length split
              rw [List.length_append, List.length_cons, size] at lengths
              rw [List.length_cons] at enough
              simp only [dropped]
              rw [split]
              exact .char c (ih after (by omega))
          | none =>
              simp only
              have notNewline : first ≠ 10 := by
                rintro rfl
                have readable : ((10 : UInt8) :: rest).toByteArray.utf8DecodeChar? 0 =
                    some '\n' := by
                  have encoded : ((10 : UInt8) :: rest) = String.utf8EncodeChar '\n' ++ rest := rfl
                  rw [encoded, List.toByteArray_append]
                  exact ByteArray.utf8DecodeChar?_utf8EncodeChar_append
                rw [readable] at decoded
                cases decoded
              have whole : first :: rest =
                  first :: rest.take (followCount (followRanges first) rest) ++
                    rest.drop (followCount (followRanges first) rest) := by
                simp
              have short : (rest.drop (followCount (followRanges first) rest)).length ≤ fuel := by
                rw [List.length_drop]
                rw [List.length_cons] at enough
                omega
              rw [whole]
              simp only [List.cons_append, List.take_append_drop]
              have unit := Decodes.broken first notNewline
                (followCount_split _ rest (followRanges_following first)) ?_ (ih _ short)
              · simpa using unit
              · intro follow
                simp [followRanges_follow follow, followCount]

theorem fromUtf8Lossy_decodes (bytes : List UInt8) : Decodes bytes (fromUtf8Lossy bytes) :=
  decodes_lossy _ bytes (Nat.le_refl _)

theorem countP_follow (follow : ∀ byte ∈ bytes, isFollow byte = true) : bytes.countP isLead = 0 :=
  List.countP_eq_zero.mpr fun byte member => by
    simp [follow_not_lead (follow byte member)]

theorem count_follow (follow : ∀ byte ∈ bytes, isFollow byte = true) : bytes.count 10 = 0 :=
  List.count_eq_zero.mpr fun member => follow_not_newline (follow 10 member) rfl

variable {text : Text}

theorem Decodes.leads_le (decodes : Decodes bytes text) : bytes.countP isLead ≤ wide text := by
  induction decodes with
  | done => exact Nat.le_refl _
  | char c _ ih =>
      obtain ⟨first, rest, shape, -, lead, -, -, follow⟩ := utf8EncodeChar_shape c
      rw [shape, wide_cons, List.cons_append, List.countP_cons, List.countP_append,
        countP_follow follow, lead]
      omega
  | broken first _ follow _ _ ih =>
      rw [wide_cons, List.cons_append, List.countP_cons, List.countP_append,
        countP_follow follow, if_pos (show isWide '\uFFFD' = true by decide)]
      split <;> omega

theorem Decodes.leads_lt {first : UInt8}
    (decodes : Decodes (first :: bytes) text) (follow : isFollow first = true) :
    (first :: bytes).countP isLead < wide text := by
  -- A piece that starts inside a character has a wide character too many.
  generalize whole : first :: bytes = all at decodes
  cases decodes with
  | done => cases whole
  | char c _ =>
      obtain ⟨head, rest, shape, notFollow, -, -, -, -⟩ := utf8EncodeChar_shape c
      rw [shape, List.cons_append, List.cons.injEq] at whole
      rw [← whole.1, follow] at notFollow
      cases notFollow
  | broken head _ _ single rest =>
      rw [List.cons_append, List.cons.injEq] at whole
      obtain ⟨rfl, -⟩ := whole
      rw [single follow, wide_cons, if_pos (show isWide '\uFFFD' = true by decide)]
      have later := rest.leads_le
      have first_not := follow_not_lead follow
      simp only [List.cons_append, List.nil_append, List.countP_cons, first_not]
      simp only [Bool.false_eq_true, if_false]
      omega

theorem Decodes.newlines_eq (decodes : Decodes bytes text) : newlines text = bytes.count 10 := by
  induction decodes with
  | done => rfl
  | char c _ ih =>
      obtain ⟨first, rest, shape, -, -, newline, -, follow⟩ := utf8EncodeChar_shape c
      rw [shape, newlines, List.cons_append, List.count_cons, List.count_cons,
        List.count_append, count_follow follow]
      rw [newlines] at ih
      rw [ih]
      simp only [beq_iff_eq, Nat.zero_add]
      by_cases ten : c = '\n'
      · rw [if_pos ten, if_pos (newline.mpr ten)]
      · rw [if_neg ten, if_neg (fun same => ten (newline.mp same))]
  | broken first notNewline follow _ _ ih =>
      rw [newlines, List.cons_append, List.count_cons, List.count_cons, List.count_append,
        count_follow follow]
      rw [newlines] at ih
      rw [ih]
      simp [notNewline]

theorem Decodes.of_nil (decodes : Decodes [] text) : text = [] := by
  generalize none : ([] : List UInt8) = bytes at decodes
  cases decodes with
  | done => rfl
  | char c _ =>
      obtain ⟨first, rest, shape, -⟩ := utf8EncodeChar_shape c
      rw [shape] at none
      cases none
  | broken => cases none

theorem Decodes.ends_in_newline (decodes : Decodes bytes text)
    (ends : bytes.getLast? = some 10) : text.getLast? = some '\n' := by
  induction decodes with
  | done => simp at ends
  | @char c bytes text rest ih =>
      obtain ⟨first, more, shape, -, -, newline, -, follow⟩ := utf8EncodeChar_shape c
      cases bytes with
      | nil =>
          rw [List.append_nil, shape] at ends
          cases more with
          | nil =>
              have ten : first = 10 := by simpa using ends
              have empty := rest.of_nil
              subst empty
              simp [newline.mp ten]
          | cons second later =>
              have member : (10 : UInt8) ∈ second :: later := by
                rw [List.getLast?_cons_cons] at ends
                exact List.mem_of_getLast? ends
              exact absurd rfl (follow_not_newline (follow 10 member))
      | cons byte bytes =>
          rw [List.getLast?_append_of_ne_nil _ (by simp)] at ends
          have last := ih ends
          rw [List.getLast?_cons, last]
          rfl
  | @broken first lost bytes text notNewline follow _ rest ih =>
      cases bytes with
      | nil =>
          rw [List.append_nil] at ends
          have member := List.mem_of_getLast? ends
          rcases List.mem_cons.mp member with same | lostNewline
          · exact absurd same.symm notNewline
          · exact absurd rfl (follow_not_newline (follow 10 lostNewline))
      | cons byte bytes =>
          rw [List.getLast?_append_of_ne_nil _ (by simp)] at ends
          have last := ih ends
          rw [List.getLast?_cons, last]
          rfl

end Units

section Clean

theorem asBytes_leads (text : Text) : (asBytes text).countP isLead = wide text := by
  induction text with
  | nil => rfl
  | cons c text ih =>
      obtain ⟨first, rest, shape, -, lead, -, -, follow⟩ := utf8EncodeChar_shape c
      rw [asBytes_cons, shape, wide_cons, List.cons_append, List.countP_cons, List.countP_append,
        countP_follow follow, lead, ih]
      omega

theorem asBytes_newlines (text : Text) : (asBytes text).count 10 = newlines text := by
  rw [← (fromUtf8Lossy_decodes (asBytes text)).newlines_eq, fromUtf8Lossy_asBytes]

theorem asBytes_cut {text : Text} {front back : List UInt8}
    (split : asBytes text = front ++ back)
    (boundary : ∀ byte ∈ back.head?, isFollow byte = false) :
    ∃ before after, text = before ++ after ∧ front = asBytes before ∧ back = asBytes after := by
  -- A cut before the first byte of a character is a cut between characters.
  induction text generalizing front with
  | nil =>
      rw [asBytes_nil, eq_comm, List.append_eq_nil_iff] at split
      exact ⟨[], [], rfl, split.1, split.2⟩
  | cons c text ih =>
      obtain ⟨first, rest, shape, -, -, -, -, follow⟩ := utf8EncodeChar_shape c
      cases front with
      | nil => exact ⟨[], c :: text, rfl, rfl, split.symm⟩
      | cons byte front =>
          rw [asBytes_cons] at split
          rcases List.append_eq_append_iff.mp split with ⟨more, longer, later⟩ | ⟨more, short, later⟩
          · obtain ⟨before, after, whole, isFront, isBack⟩ := ih later
            refine ⟨c :: before, after, by rw [whole]; rfl, ?_, isBack⟩
            rw [longer, asBytes_cons, isFront]
          · -- the cut lies in the first character, where only followers are
            cases more with
            | nil =>
                refine ⟨[c], text, rfl, ?_, by simpa using later⟩
                rw [List.append_nil] at short
                rw [← short]
                simp [asBytes]
            | cons second more =>
                have isHead : back.head? = some second := by rw [later]; rfl
                have within : second ∈ rest := by
                  rw [shape, List.cons_append, List.cons.injEq] at short
                  rw [short.2]
                  simp
                have notFollow := boundary second (by simp [isHead])
                rw [follow second within] at notFollow
                cases notFollow

end Clean

section Pieces

theorem asBytes_flatten (parts : List Text) :
    asBytes parts.flatten = (parts.map asBytes).flatten := by
  induction parts with
  | nil => rfl
  | cons part rest ih => rw [List.flatten_cons, asBytes_append, ih, List.map_cons, List.flatten_cons]

def decodedPieces (pieces : List (List UInt8)) : Text := pieces.flatMap fromUtf8Lossy

@[simp] theorem decodedPieces_nil : decodedPieces [] = [] := rfl

@[simp] theorem decodedPieces_cons (piece : List UInt8) (rest : List (List UInt8)) :
    decodedPieces (piece :: rest) = fromUtf8Lossy piece ++ decodedPieces rest := by
  simp [decodedPieces]

theorem newlines_pieces (pieces : List (List UInt8)) :
    newlines (decodedPieces pieces) = pieces.flatten.count 10 := by
  induction pieces with
  | nil => rfl
  | cons piece rest ih =>
      rw [decodedPieces_cons, newlines_append, ih, (fromUtf8Lossy_decodes piece).newlines_eq,
        List.flatten_cons, List.count_append]

theorem leads_le_pieces (pieces : List (List UInt8)) :
    pieces.flatten.countP isLead ≤ wide (decodedPieces pieces) := by
  induction pieces with
  | nil => exact Nat.le_refl _
  | cons piece rest ih =>
      have here := (fromUtf8Lossy_decodes piece).leads_le
      rw [decodedPieces_cons, wide_append, List.flatten_cons, List.countP_append]
      omega

variable {pieces : List (List UInt8)}

theorem leads_lt_pieces {first : UInt8} {bytes : List UInt8}
    (member : first :: bytes ∈ pieces) (follow : isFollow first = true) :
    pieces.flatten.countP isLead < wide (decodedPieces pieces) := by
  induction pieces with
  | nil => cases member
  | cons piece rest ih =>
      rw [decodedPieces_cons, wide_append, List.flatten_cons, List.countP_append]
      rcases List.mem_cons.mp member with rfl | later
      · have here := (fromUtf8Lossy_decodes (first :: bytes)).leads_lt follow
        have there := leads_le_pieces rest
        omega
      · have here := (fromUtf8Lossy_decodes piece).leads_le
        have there := ih later
        omega

theorem pieces_empty (empty : pieces.flatten = []) : decodedPieces pieces = [] := by
  rw [List.flatten_eq_nil_iff] at empty
  simp only [decodedPieces, List.flatMap_eq_nil_iff]
  intro piece member
  rw [empty piece member]
  rfl

theorem pieces_end_in_newline (ends : pieces.flatten.getLast? = some 10) :
    (decodedPieces pieces).getLast? = some '\n' := by
  induction pieces with
  | nil => simp at ends
  | cons piece rest ih =>
      rw [decodedPieces_cons]
      rw [List.flatten_cons] at ends
      by_cases empty : rest.flatten = []
      · rw [empty, List.append_nil] at ends
        rw [pieces_empty empty, List.append_nil]
        exact (fromUtf8Lossy_decodes piece).ends_in_newline ends
      · rw [List.getLast?_append_of_ne_nil _ empty] at ends
        have last := ih ends
        have nonempty : decodedPieces rest ≠ [] := by
          intro none
          simp [none] at last
        rw [List.getLast?_append_of_ne_nil _ nonempty, last]

theorem pieces_clean {text : Text} (split : pieces.flatten = asBytes text)
    (boundary : ∀ piece ∈ pieces, ∀ byte ∈ piece.head?, isFollow byte = false) :
    ∀ piece ∈ pieces, ∃ part, piece = asBytes part := by
  induction pieces generalizing text with
  | nil => simp
  | cons piece rest ih =>
      rw [List.flatten_cons] at split
      have next : ∀ byte ∈ rest.flatten.head?, isFollow byte = false := by
        intro byte head
        rw [List.head?_flatten, Option.mem_def, List.findSome?_eq_some_iff] at head
        obtain ⟨before, other, after, whole, isHead, -⟩ := head
        exact boundary other (by simp [whole]) byte isHead
      obtain ⟨front, back, -, isFront, isBack⟩ := asBytes_cut split.symm next
      intro other member
      rcases List.mem_cons.mp member with rfl | later
      · exact ⟨front, isFront⟩
      · exact ih isBack (fun piece member => boundary piece (List.mem_cons_of_mem _ member))
          other later

end Pieces

end Text
