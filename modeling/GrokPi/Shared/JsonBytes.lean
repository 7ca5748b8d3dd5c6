import GrokPi.Shared.ByteText
import GrokPi.Shared.Json

set_option autoImplicit false

namespace Json

open Text

def serializedBytes (json : Json) : Nat := byteLen json.print

def escapedBytes (text : Text) : Nat := byteLen (text.flatMap escapeChar)

def joinedBytes (sizes : List Nat) : Nat := sizes.sum + (sizes.length - 1)

def memberBytes (member : Text × Json) : Nat := escapedBytes member.1 + 3 + serializedBytes member.2

theorem escapedBytes_append (front back : Text) :
    escapedBytes (front ++ back) = escapedBytes front + escapedBytes back := by
  simp [escapedBytes]

theorem escapedBytes_cons (c : Char) (text : Text) :
    escapedBytes (c :: text) = byteLen (escapeChar c) + escapedBytes text := by
  simp [escapedBytes]

theorem escapedBytes_plain {text : Text} (plain : ∀ c ∈ text, escapeChar c = [c]) :
    escapedBytes text = byteLen text := by
  induction text with
  | nil => rfl
  | cons c text ih =>
      rw [escapedBytes_cons, plain c List.mem_cons_self,
        ih fun d member => plain d (List.mem_cons_of_mem _ member)]
      simp

theorem byteLen_quote (text : Text) : byteLen (quote text) = escapedBytes text + 2 := by
  have mark : '"'.utf8Size = 1 := by decide
  rw [quote, List.cons_append, byteLen_cons, byteLen_append, byteLen_cons, byteLen_nil, mark, escapedBytes]
  omega

theorem serializedBytes_string (text : Text) : serializedBytes (.string text) = escapedBytes text + 2 := by
  rw [serializedBytes, print, byteLen_quote]

theorem joinedBytes_cons_cons (first second : Nat) (rest : List Nat) :
    joinedBytes (first :: second :: rest) = first + 1 + joinedBytes (second :: rest) := by
  simp only [joinedBytes, List.sum_cons, List.length_cons]
  omega

theorem byteLen_printItems (items : List Json) :
    byteLen (printItems items) = joinedBytes (items.map serializedBytes) := by
  have comma : ','.utf8Size = 1 := by decide
  induction items with
  | nil => rfl
  | cons item rest ih =>
      cases rest with
      | nil => simp [printItems, joinedBytes, serializedBytes]
      | cons next rest =>
          rw [printItems, byteLen_append, byteLen_cons, comma, ih]
          simp only [List.map_cons, joinedBytes_cons_cons, serializedBytes]
          omega

theorem byteLen_printMembers (members : List (Text × Json)) :
    byteLen (printMembers members) = joinedBytes (members.map memberBytes) := by
  have comma : ','.utf8Size = 1 := by decide
  have colon : ':'.utf8Size = 1 := by decide
  induction members with
  | nil => rfl
  | cons member rest ih =>
      obtain ⟨key, value⟩ := member
      have here : byteLen (quote key ++ ':' :: print value) = memberBytes (key, value) := by
        simp only [byteLen_append, byteLen_cons, byteLen_quote, colon, memberBytes, serializedBytes]
        omega
      cases rest with
      | nil => simpa [printMembers, joinedBytes] using here
      | cons next rest =>
          rw [printMembers, byteLen_append, byteLen_cons, comma, here, ih]
          simp only [List.map_cons, joinedBytes_cons_cons]
          omega

theorem serializedBytes_array (items : List Json) :
    serializedBytes (.array items) = joinedBytes (items.map serializedBytes) + 2 := by
  have opening : '['.utf8Size = 1 := by decide
  have closing : ']'.utf8Size = 1 := by decide
  rw [serializedBytes, print, List.cons_append, byteLen_cons, byteLen_append, byteLen_cons, byteLen_nil,
    opening, closing, byteLen_printItems]
  omega

theorem serializedBytes_object (members : List (Text × Json)) :
    serializedBytes (.object members) = joinedBytes (members.map memberBytes) + 2 := by
  have opening : '{'.utf8Size = 1 := by decide
  have closing : '}'.utf8Size = 1 := by decide
  rw [serializedBytes, print, List.cons_append, byteLen_cons, byteLen_append, byteLen_cons, byteLen_nil,
    opening, closing, byteLen_printMembers]
  omega

end Json
