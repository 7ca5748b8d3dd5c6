import Mathlib

set_option autoImplicit false

universe u v

abbrev InsertionMap (Key : Type u) (Value : Type v) := List (Key × Value)

namespace InsertionMap

variable {Key : Type u} {Value : Type v} [DecidableEq Key]

def get (map : InsertionMap Key Value) (key : Key) : Option Value :=
  (map.find? fun entry => entry.1 = key).map Prod.snd

def has (map : InsertionMap Key Value) (key : Key) : Bool := (map.get key).isSome

def set : InsertionMap Key Value → Key → Value → InsertionMap Key Value
  | [], key, value => [(key, value)]
  | (here, old) :: rest, key, value =>
      if here = key then (here, value) :: rest else (here, old) :: set rest key value

example : set [(1, 'a'), (2, 'b')] 1 'c' = [(1, 'c'), (2, 'b')] := by
  simp [set]

def erase (map : InsertionMap Key Value) (key : Key) : InsertionMap Key Value :=
  map.filter fun entry => entry.1 ≠ key

def keys (map : InsertionMap Key Value) : List Key := map.map Prod.fst

theorem get_set (map : InsertionMap Key Value) (key other : Key) (value : Value) :
    get (map.set key value) other = if other = key then some value else map.get other := by
  induction map with
  | nil =>
      by_cases same : other = key
      · simp [set, get, same]
      · simp [set, get, same, Ne.symm same]
  | cons entry rest ih =>
      obtain ⟨here, old⟩ := entry
      simp only [set]
      simp only [get] at ih ⊢
      by_cases replaced : here = key
      · subst replaced
        by_cases same : other = here
        · simp [same]
        · simp [Ne.symm same, same]
      · by_cases found : here = other
        · subst found
          simp [replaced]
        · simpa [replaced, found] using ih

variable {map : InsertionMap Key Value}

theorem set_get {key : Key} {value : Value}
    (held : map.get key = some value) : map.set key value = map := by
  induction map with
  | nil => cases held
  | cons entry rest ih =>
      obtain ⟨here, old⟩ := entry
      by_cases same : here = key
      · simp only [get, same, decide_true, List.find?_cons_of_pos, Option.map_some,
          Option.some.injEq] at held
        simp [set, same, held]
      · simp only [set, same, if_false]
        rw [ih (by simpa [get, same] using held)]

theorem set_set (map : InsertionMap Key Value) (key : Key) (first second : Value) :
    set (map.set key first) key second = map.set key second := by
  induction map with
  | nil => simp [set]
  | cons entry rest ih =>
      obtain ⟨here, old⟩ := entry
      by_cases same : here = key
      · simp [set, same]
      · simp [set, same, ih]

theorem keys_set (map : InsertionMap Key Value) (key : Key) (value : Value) :
    keys (map.set key value) = if key ∈ keys map then keys map else keys map ++ [key] := by
  induction map with
  | nil => simp [set, keys]
  | cons entry rest ih =>
      obtain ⟨here, old⟩ := entry
      simp only [set]
      by_cases replaced : here = key
      · simp [replaced, keys]
      · have different : key ≠ here := Ne.symm replaced
        simp only [keys] at ih
        simp only [replaced, if_false, keys, List.map_cons, ih, List.mem_cons, different, false_or]
        by_cases present : key ∈ rest.map Prod.fst <;> simp [present]

theorem keys_set_nodup (once : map.keys.Nodup) (key : Key)
    (value : Value) : (keys (map.set key value)).Nodup := by
  rw [keys_set]
  split
  · exact once
  · next absent => simpa using once.concat absent

theorem length_set_le (map : InsertionMap Key Value) (key : Key) (value : Value) :
    (map.set key value).length ≤ map.length + 1 := by
  have size := congrArg List.length (keys_set map key value)
  simp only [keys, List.length_map] at size
  rw [size]
  by_cases held : key ∈ map.map Prod.fst <;> simp [held]

theorem mem_keys {key : Key} : key ∈ map.keys ↔ ∃ value, map.get key = some value := by
  simp only [keys, get, List.mem_map, Option.map_eq_some_iff]
  constructor
  · intro ⟨entry, member, same⟩
    have found : (map.find? fun entry => entry.1 = key).isSome := by
      rw [List.find?_isSome]
      exact ⟨entry, member, by simpa using same⟩
    obtain ⟨first, here⟩ := Option.isSome_iff_exists.mp found
    exact ⟨first.2, first, here, rfl⟩
  · intro ⟨_, entry, found, _⟩
    exact ⟨entry, List.mem_of_find?_eq_some found, by simpa using List.find?_some found⟩

theorem has_iff {key : Key} : map.has key = true ↔ key ∈ map.keys := by
  rw [mem_keys, has, Option.isSome_iff_exists]

theorem set_absent {key : Key} (absent : key ∉ map.keys)
    (value : Value) : map.set key value = map ++ [(key, value)] := by
  induction map with
  | nil => rfl
  | cons entry rest ih =>
      obtain ⟨here, old⟩ := entry
      have different : key ≠ here := fun same => absent (List.mem_cons.mpr (Or.inl same))
      have later : key ∉ keys rest := fun member => absent (List.mem_cons_of_mem _ member)
      simp only [set, List.cons_append]
      rw [if_neg (Ne.symm different), ih later]

theorem erase_absent {key : Key} (absent : key ∉ map.keys) : map.erase key = map := by
  simp only [erase, List.filter_eq_self]
  intro entry member
  have different : entry.1 ≠ key := fun same => absent (same ▸ List.mem_map_of_mem member)
  simpa using different

theorem erase_append (first second : InsertionMap Key Value) (key : Key) :
    erase (first ++ second) key = first.erase key ++ second.erase key := by
  simp [erase]

theorem get_erase (map : InsertionMap Key Value) (key other : Key) :
    get (map.erase key) other = if other = key then none else map.get other := by
  induction map with
  | nil => simp [erase, get]
  | cons entry rest ih =>
      simp only [get, erase] at ih ⊢
      by_cases gone : entry.1 = key
      · rw [List.filter_cons_of_neg (by simpa using gone), ih]
        by_cases same : other = key
        · simp [same]
        · have apart : ¬ entry.1 = other := fun here => same (here.symm.trans gone)
          simp [same, apart]
      · rw [List.filter_cons_of_pos (by simpa using gone)]
        by_cases here : entry.1 = other
        · have apart : ¬ other = key := fun same => gone (here.trans same)
          simp [here, apart]
        · rw [List.find?_cons_of_neg (by simpa using here), List.find?_cons_of_neg (by simpa using here), ih]

theorem mem_set {key : Key} {value : Value} {entry : Key × Value}
    (member : entry ∈ map.set key value) : entry = (key, value) ∨ entry ∈ map := by
  induction map with
  | nil => exact Or.inl (List.mem_singleton.mp member)
  | cons head rest ih =>
      obtain ⟨here, held⟩ := head
      simp only [set] at member
      split at member
      · next same =>
          rcases List.mem_cons.mp member with new | old
          · exact Or.inl (by rw [new, same])
          · exact Or.inr (List.mem_cons_of_mem _ old)
      · rcases List.mem_cons.mp member with first | later
        · exact Or.inr (by simp [first])
        · exact (ih later).imp_right (List.mem_cons_of_mem _)

theorem get_mem {key : Key} {value : Value} (held : map.get key = some value) : (key, value) ∈ map := by
  simp only [get, Option.map_eq_some_iff] at held
  obtain ⟨entry, found, rfl⟩ := held
  have same : entry.1 = key := by simpa using List.find?_some found
  rw [← same]
  exact List.mem_of_find?_eq_some found

theorem mem_get (once : map.keys.Nodup) {key : Key} {value : Value} :
    (key, value) ∈ map ↔ map.get key = some value := by
  induction map with
  | nil => simp [get]
  | cons entry rest ih =>
      obtain ⟨here, held⟩ := entry
      have ⟨absent, later⟩ := List.nodup_cons.mp once
      simp only [get] at ih ⊢
      by_cases found : here = key
      · subst found
        have unlisted : (here, value) ∉ rest := fun member =>
          absent (List.mem_map.mpr ⟨_, member, rfl⟩)
        simp [unlisted, eq_comm]
      · simpa [found, Ne.symm found] using ih later

section Grouping

variable (key : Value → Key)

def lastBy (values : List Value) : InsertionMap Key Value :=
  values.foldl (fun map value => map.set (key value) value) []

def firstBy (values : List Value) : InsertionMap Key Value :=
  values.foldl (fun map value => if map.has (key value) then map else map.set (key value) value) []

theorem lastBy_concat (earlier : List Value) (value : Value) :
    lastBy key (earlier ++ [value]) = (lastBy key earlier).set (key value) value := by
  simp [lastBy, List.foldl_append]

theorem firstBy_concat (earlier : List Value) (value : Value) :
    firstBy key (earlier ++ [value]) =
      if (firstBy key earlier).has (key value) then firstBy key earlier
      else (firstBy key earlier).set (key value) value := by
  rw [firstBy, List.foldl_append]
  rfl

theorem lastBy_keys_nodup (values : List Value) : (lastBy key values).keys.Nodup := by
  induction values using List.reverseRecOn with
  | nil => simp [lastBy, keys]
  | append_singleton earlier value ih =>
      rw [lastBy_concat]
      exact keys_set_nodup ih _ _

theorem get_lastBy (values : List Value) (wanted : Key) :
    get (lastBy key values) wanted = (values.filter fun value => key value = wanted).getLast? := by
  induction values using List.reverseRecOn with
  | nil => rfl
  | append_singleton earlier value ih =>
      rw [lastBy_concat, get_set]
      by_cases same : key value = wanted
      · simp [same, List.filter_append]
      · simp only [Ne.symm same, if_false, ih]
        simp [same, List.filter_append]

theorem get_firstBy (values : List Value) (wanted : Key) :
    get (firstBy key values) wanted = (values.filter fun value => key value = wanted).head? := by
  induction values using List.reverseRecOn with
  | nil => rfl
  | append_singleton earlier value ih =>
      rw [firstBy_concat]
      by_cases same : key value = wanted
      · subst same
        simp only [has, ih]
        cases found : earlier.filter fun other => key other = key value with
        | nil => simp [found, get_set, List.filter_append]
        | cons first rest =>
            rw [found] at ih
            simp [found, ih, List.filter_append]
      · have kept : get (if (firstBy key earlier).has (key value) then firstBy key earlier
            else (firstBy key earlier).set (key value) value) wanted =
            get (firstBy key earlier) wanted := by
          split
          · rfl
          · simp [get_set, Ne.symm same]
        rw [kept, ih]
        simp [same, List.filter_append]

end Grouping

end InsertionMap
