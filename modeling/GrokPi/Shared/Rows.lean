import Mathlib

set_option autoImplicit false

namespace Rows

universe u v

variable {Row : Type u} {Key : Type v} [DecidableEq Key] (key : Row → Key)

def get (rows : List Row) (wanted : Key) : Option Row := rows.find? fun row => key row = wanted

def update (wanted : Key) (change : Row → Row) : List Row → List Row
  | [] => []
  | row :: rest => if key row = wanted then change row :: rest else row :: update wanted change rest

def remove (wanted : Key) (rows : List Row) : List Row := rows.eraseP fun row => key row = wanted

example : update Prod.fst 2 (fun row => (row.1, 'z')) [(1, 'a'), (2, 'b'), (2, 'c')] =
    [(1, 'a'), (2, 'z'), (2, 'c')] := by decide

variable {rows : List Row}

theorem get_key {wanted : Key} {row : Row} (found : get key rows wanted = some row) :
    key row = wanted := by
  simpa using List.find?_some found

theorem get_mem {wanted : Key} {row : Row} (found : get key rows wanted = some row) : row ∈ rows :=
  List.mem_of_find?_eq_some found

theorem get_eq_none {wanted : Key} : get key rows wanted = none ↔ wanted ∉ rows.map key := by
  simp only [get, List.find?_eq_none, decide_eq_true_eq, List.mem_map, not_exists, not_and]

theorem get_isSome {wanted : Key} : (get key rows wanted).isSome ↔ wanted ∈ rows.map key := by
  have missing : get key rows wanted = none ↔ wanted ∉ rows.map key := get_eq_none key
  cases found : get key rows wanted with
  | none => simpa [found] using missing
  | some row => simpa [found] using missing

theorem mem_get (distinct : (rows.map key).Nodup) {row : Row} (member : row ∈ rows) :
    get key rows (key row) = some row := by
  induction rows with
  | nil => cases member
  | cons head rest ih =>
      simp only [List.map_cons, List.nodup_cons] at distinct
      rcases List.mem_cons.mp member with rfl | later
      · simp [get]
      · have different : key head ≠ key row := by
          intro same
          exact distinct.1 (same ▸ List.mem_map_of_mem later)
        have found := ih distinct.2 later
        simp only [get] at found ⊢
        rw [List.find?_cons_of_neg (by simpa using different), found]

theorem get_append (first second : List Row) (wanted : Key) :
    get key (first ++ second) wanted = (get key first wanted).or (get key second wanted) := by
  simp [get, List.find?_append]

section Updates

variable {change : Row → Row} (keeps : ∀ row, key (change row) = key row)

include keeps in
theorem keys_update (wanted : Key) (rows : List Row) : (update key wanted change rows).map key = rows.map key := by
  induction rows with
  | nil => rfl
  | cons row rest ih =>
      simp only [update]
      split <;> simp [ih, keeps]

include keeps in
theorem get_update (wanted other : Key) (rows : List Row) :
    get key (update key wanted change rows) other =
      if other = wanted then (get key rows wanted).map change else get key rows other := by
  induction rows with
  | nil => simp [update, get]
  | cons row rest ih =>
      simp only [get] at ih
      simp only [update, get]
      by_cases here : key row = wanted
      · by_cases asked : other = wanted
        · simp [here, asked, keeps]
        · have elsewhere : ¬ wanted = other := Ne.symm asked
          simp [here, asked, keeps, elsewhere]
      · by_cases asked : key row = other
        · have apart : ¬ other = wanted := fun same => here (asked.trans same)
          simp [asked, apart]
        · simp only [here, if_false, asked, decide_false, Bool.false_eq_true, not_false_eq_true,
            List.find?_cons_of_neg]
          exact ih

end Updates

theorem remove_sublist (wanted : Key) (rows : List Row) : (remove key wanted rows).Sublist rows :=
  List.eraseP_sublist

theorem get_remove_ne {wanted other : Key} (apart : other ≠ wanted) (rows : List Row) :
    get key (remove key wanted rows) other = get key rows other := by
  induction rows with
  | nil => rfl
  | cons row rest ih =>
      simp only [remove, get] at ih ⊢
      by_cases here : key row = wanted
      · have elsewhere : ¬ key row = other := fun same => apart (same.symm.trans here)
        rw [List.eraseP_cons_of_pos (by simpa using here), List.find?_cons_of_neg (by simpa using elsewhere)]
      · rw [List.eraseP_cons_of_neg (by simpa using here)]
        by_cases asked : key row = other
        · simp [asked]
        · rw [List.find?_cons_of_neg (by simpa using asked), ih, List.find?_cons_of_neg (by simpa using asked)]

theorem get_remove_self (distinct : (rows.map key).Nodup) (wanted : Key) :
    get key (remove key wanted rows) wanted = none := by
  induction rows with
  | nil => rfl
  | cons row rest ih =>
      simp only [List.map_cons, List.nodup_cons] at distinct
      by_cases here : key row = wanted
      · rw [remove, List.eraseP_cons_of_pos (by simpa using here), ← here]
        exact (get_eq_none key).mpr distinct.1
      · have later := ih distinct.2
        simp only [remove, get] at later ⊢
        rw [List.eraseP_cons_of_neg (by simpa using here), List.find?_cons_of_neg (by simpa using here), later]

end Rows
