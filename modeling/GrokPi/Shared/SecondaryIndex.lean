import Mathlib

set_option autoImplicit false

namespace SecondaryIndex

universe u v w x

variable {Key : Type u} {Attribute : Type v} {Id : Type w} {Record : Type x}

structure Distinct (idOf : Record → Id) (store : Key → List Record) : Prop where
  within : ∀ key, ((store key).map idOf).Nodup
  across : ∀ key other, ∀ first ∈ store key, ∀ second ∈ store other,
    idOf first = idOf second → key = other

def Exact (idOf : Record → Id) (tag : Record → Option Attribute) (store : Key → List Record)
    (index : Attribute → Finset Id) : Prop :=
  ∀ value id, id ∈ index value ↔
    ∃ key, ∃ record ∈ store key, idOf record = id ∧ tag record = some value

section Entries

variable [DecidableEq Attribute] [DecidableEq Id] (idOf : Record → Id)
  (tag : Record → Option Attribute)

def remove (index : Attribute → Finset Id) (record : Record) : Attribute → Finset Id :=
  match tag record with
  | none => index
  | some value => Function.update index value ((index value).erase (idOf record))

def insert (index : Attribute → Finset Id) (record : Record) : Attribute → Finset Id :=
  match tag record with
  | none => index
  | some value => Function.update index value (Insert.insert (idOf record) (index value))

theorem mem_remove (index : Attribute → Finset Id) (record : Record) (value : Attribute) (id : Id) :
    id ∈ remove idOf tag index record value ↔
      id ∈ index value ∧ ¬ (idOf record = id ∧ tag record = some value) := by
  unfold remove
  cases found : tag record with
  | none => simp
  | some here =>
      by_cases same : value = here
      · simp [same, and_comm, eq_comm]
      · simp [same, Ne.symm same]

theorem mem_insert (index : Attribute → Finset Id) (record : Record) (value : Attribute) (id : Id) :
    id ∈ insert idOf tag index record value ↔
      id ∈ index value ∨ (idOf record = id ∧ tag record = some value) := by
  unfold insert
  cases found : tag record with
  | none => simp
  | some here =>
      by_cases same : value = here
      · simp [same, or_comm, eq_comm]
      · simp [same, Ne.symm same]

theorem mem_removeAll (records : List Record) (index : Attribute → Finset Id) (value : Attribute) (id : Id) :
    id ∈ records.foldl (remove idOf tag) index value ↔
      id ∈ index value ∧ ∀ record ∈ records, ¬ (idOf record = id ∧ tag record = some value) := by
  induction records generalizing index with
  | nil => simp
  | cons record rest ih =>
      simp only [List.foldl_cons, ih, mem_remove, List.mem_cons, forall_eq_or_imp, and_assoc]

theorem mem_insertAll (records : List Record) (index : Attribute → Finset Id) (value : Attribute) (id : Id) :
    id ∈ records.foldl (insert idOf tag) index value ↔
      id ∈ index value ∨ ∃ record ∈ records, idOf record = id ∧ tag record = some value := by
  induction records generalizing index with
  | nil => simp
  | cons record rest ih =>
      simp only [List.foldl_cons, ih, mem_insert, List.mem_cons, exists_eq_or_imp, or_assoc]

end Entries

section Stores

variable [DecidableEq Key] {idOf : Record → Id} {store : Key → List Record}

theorem Distinct.shrink (distinct : Distinct idOf store) {key : Key} {fewer : List Record}
    (sub : fewer.Sublist (store key)) : Distinct idOf (Function.update store key fewer) := by
  have within : ∀ other, (Function.update store key fewer other).Sublist (store other) := by
    intro other
    by_cases same : other = key
    · subst same
      simpa using sub
    · simp [same]
  constructor
  · intro other
    exact (distinct.within other).sublist ((within other).map idOf)
  · intro first second a memberA b memberB same
    exact distinct.across first second a ((within first).subset memberA) b
      ((within second).subset memberB) same

theorem Distinct.replace (distinct : Distinct idOf store) {key : Key} {records : List Record}
    (nodup : (records.map idOf).Nodup)
    (ids : ∀ record ∈ records, (∃ old ∈ store key, idOf old = idOf record) ∨
      ∀ other, ∀ old ∈ store other, idOf old ≠ idOf record) :
    Distinct idOf (Function.update store key records) := by
  -- New records under a key keep an id of that key or bring an unknown one.
  have apart : ∀ other, other ≠ key → ∀ a ∈ records, ∀ b ∈ store other, idOf a ≠ idOf b := by
    intro other different a memberA b memberB same
    rcases ids a memberA with ⟨old, member, sameOld⟩ | unknown
    · exact different (distinct.across other key b memberB old member (same.symm.trans sameOld.symm))
    · exact unknown other b memberB same.symm
  constructor
  · intro other
    by_cases same : other = key
    · simpa [same] using nodup
    · simpa [same] using distinct.within other
  · intro first second a memberA b memberB same
    by_cases firstHere : first = key <;> by_cases secondHere : second = key
    · rw [firstHere, secondHere]
    · simp only [firstHere, secondHere, Function.update_self, ne_eq, not_false_eq_true,
        Function.update_of_ne] at memberA memberB
      exact absurd same (apart second secondHere a memberA b memberB)
    · simp only [firstHere, secondHere, Function.update_self, ne_eq, not_false_eq_true,
        Function.update_of_ne] at memberA memberB
      exact absurd same.symm (apart first firstHere b memberB a memberA)
    · simp only [firstHere, secondHere, ne_eq, not_false_eq_true, Function.update_of_ne] at memberA memberB
      exact distinct.across first second a memberA b memberB same

variable [DecidableEq Attribute] [DecidableEq Id] {tag : Record → Option Attribute}
  {index : Attribute → Finset Id}

theorem Exact.drop (exact' : Exact idOf tag store index) (distinct : Distinct idOf store) {key : Key}
    {gone left : List Record} (within : gone ⊆ store key)
    (rest : ∀ record, record ∈ left ↔ record ∈ store key ∧ idOf record ∉ gone.map idOf) :
    Exact idOf tag (Function.update store key left) (gone.foldl (remove idOf tag) index) := by
  -- Records leave the store with their entries.
  intro value id
  rw [mem_removeAll, exact' value id]
  constructor
  · intro ⟨⟨other, record, member, sameId, has⟩, absent⟩
    refine ⟨other, record, ?_, sameId, has⟩
    by_cases here : other = key
    · subst here
      rw [Function.update_self, rest]
      refine ⟨member, ?_⟩
      intro listed
      obtain ⟨removed, removedMember, same⟩ := List.mem_map.mp listed
      have one := List.inj_on_of_nodup_map (distinct.within other) (within removedMember) member same
      exact absent removed removedMember ⟨same.trans sameId, one ▸ has⟩
    · simpa [here] using member
  · intro ⟨other, record, member, sameId, has⟩
    by_cases here : other = key
    · subst here
      rw [Function.update_self, rest] at member
      refine ⟨⟨other, record, member.1, sameId, has⟩, ?_⟩
      intro removed removedMember both
      exact member.2 (List.mem_map.mpr ⟨removed, removedMember, both.1.trans sameId.symm⟩)
    · rw [Function.update_of_ne here] at member
      refine ⟨⟨other, record, member, sameId, has⟩, ?_⟩
      intro removed removedMember both
      exact here (distinct.across other key record member removed (within removedMember)
        (sameId.trans both.1.symm))

theorem Exact.clear (exact' : Exact idOf tag store index) (distinct : Distinct idOf store) (key : Key) :
    Exact idOf tag (Function.update store key [])
      ((store key).foldl (remove idOf tag) index) := by
  apply exact'.drop distinct (List.Subset.refl _)
  intro record
  constructor
  · intro none'
    cases none'
  · intro both
    exact absurd (List.mem_map_of_mem both.1) both.2

theorem Exact.fill (exact' : Exact idOf tag store index) {key : Key} (empty : store key = [])
    (records : List Record) :
    Exact idOf tag (Function.update store key records)
      (records.foldl (insert idOf tag) index) := by
  intro value id
  rw [mem_insertAll, exact' value id]
  constructor
  · rintro (⟨other, record, member, entry⟩ | ⟨record, member, entry⟩)
    · have different : other ≠ key := by
        rintro rfl
        simp [empty] at member
      exact ⟨other, record, by simpa [different] using member, entry⟩
    · exact ⟨key, record, by simpa using member, entry⟩
  · intro ⟨other, record, member, entry⟩
    by_cases here : other = key
    · exact Or.inr ⟨record, by simpa [here] using member, entry⟩
    · exact Or.inl ⟨other, record, by simpa [here] using member, entry⟩

theorem Exact.replace (exact' : Exact idOf tag store index) (distinct : Distinct idOf store) (key : Key)
    (records : List Record) :
    Exact idOf tag (Function.update store key records)
      (records.foldl (insert idOf tag) ((store key).foldl (remove idOf tag) index)) := by
  have cleared := (exact'.clear distinct key).fill (Function.update_self key [] store) records
  rwa [Function.update_idem] at cleared

end Stores

end SecondaryIndex
