import ServiceHost.Graph
import Mathlib.Tactic.Common

/-! # Indexes of the graph

What filing and unfiling do to the members of a key, and the messages that reach one inbox. -/

namespace ServiceHost

/-- Whatever is among the elements of a list is the last one or one before it. -/
theorem append_eq_split {α : Type} {l p r : List α} {a x : α} : l ++ [a] = p ++ x :: r ↔
    (p = l ∧ x = a ∧ r = []) ∨ ∃ r', r = r' ++ [a] ∧ l = p ++ x :: r' := by
  rcases List.eq_nil_or_concat r with rfl | ⟨r', e, rfl⟩
  · constructor
    · intro h
      obtain ⟨rfl, he⟩ := List.append_inj' h rfl
      exact .inl ⟨rfl, (List.cons.inj he).1.symm, rfl⟩
    · rintro (⟨rfl, rfl, _⟩ | ⟨r', h, _⟩)
      · rfl
      · simp at h
  · rw [List.concat_eq_append, ← List.cons_append, ← List.append_assoc]
    constructor
    · intro h
      obtain ⟨rfl, he⟩ := List.append_inj' h rfl
      exact .inr ⟨r', by rw [he], rfl⟩
    · rintro (⟨_, _, h⟩ | ⟨r'', h, rfl⟩)
      · simp at h
      · obtain ⟨rfl, he⟩ := List.append_inj' h rfl
        rw [he]

namespace Names

@[simp] theorem mem_ofList {l : List Name} {x : Name} : x ∈ Names.ofList l ↔ x ∈ l := by
  simp [Names.ofList]

theorem ofList_ne_empty {l : List Name} (h : l ≠ []) : Names.ofList l ≠ ∅ := by
  obtain ⟨x, hx⟩ := List.exists_mem_of_ne_nil l h
  intro he
  have : x ∈ Names.ofList l := mem_ofList.mpr hx
  simp [he] at this

theorem nodup_toList (names : Names) : names.toList.Nodup :=
  (Std.ExtTreeSet.distinct_toList (t := names)).imp fun h => by simpa using h

theorem exists_mem_of_ne_empty {names : Names} (h : names ≠ ∅) : ∃ x, x ∈ names := by
  by_contra hc
  exact h (Std.ExtTreeSet.ext_mem fun x => by simpa using fun hx => hc ⟨x, hx⟩)

/-- A set that is empty without one name holds no other name. -/
theorem eq_of_erase_eq_empty {names : Names} {a x : Name} (h : names.erase a = ∅)
    (hx : x ∈ names) : x = a := by
  by_contra hxa
  have : x ∈ names.erase a := by simp [Std.ExtTreeSet.mem_erase, Ne.symm hxa, hx]
  simp [h] at this

end Names

namespace Index

theorem mem_members {index : Index} {key x : Name} :
    x ∈ index.members key ↔ x ∈ index[key]?.getD ∅ := by
  simp [members]

theorem nodup_members (index : Index) (key : Name) : (index.members key).Nodup :=
  Names.nodup_toList _

@[simp] theorem mem_members_file {index : Index} {key name k x : Name} :
    x ∈ (index.file key name).members k ↔ x ∈ index.members k ∨ (k = key ∧ x = name) := by
  by_cases hk : key = k
  · subst hk
    rw [mem_members, mem_members, file, Std.ExtTreeMap.getElem?_insert_self]
    simp only [Option.getD_some, Std.ExtTreeSet.mem_insert, Std.LawfulEqCmp.compare_eq_iff_eq]
    tauto
  · simp [mem_members, file, Std.ExtTreeMap.getElem?_insert, hk, Ne.symm hk]

/-- Taking a name out from under one key leaves the other keys alone. -/
theorem members_unfile_of_ne {index : Index} {key name k : Name} (hk : key ≠ k) :
    (index.unfile key name).members k = index.members k := by
  unfold unfile members
  cases index[key]? with
  | none => rfl
  | some names =>
      dsimp only
      split
      · simp [Std.ExtTreeMap.getElem?_erase, hk]
      · simp [Std.ExtTreeMap.getElem?_insert, hk]

theorem mem_members_unfile_self {index : Index} {key name x : Name} :
    x ∈ (index.unfile key name).members key ↔ x ∈ index.members key ∧ x ≠ name := by
  unfold unfile
  cases h : index[key]? with
  | none => simp [mem_members, h]
  | some names =>
      have hx : x ∈ names.erase name ↔ x ∈ names ∧ x ≠ name := by
        simp only [Std.ExtTreeSet.mem_erase, ne_eq, Std.LawfulEqCmp.compare_eq_iff_eq]
        tauto
      dsimp only
      split
      · next he =>
          rw [Std.ExtTreeSet.isEmpty_iff] at he
          simpa [mem_members, h, he] using hx
      · simpa [mem_members, h] using hx

@[simp] theorem mem_members_unfile {index : Index} {key name k x : Name} :
    x ∈ (index.unfile key name).members k ↔ x ∈ index.members k ∧ ¬(k = key ∧ x = name) := by
  by_cases hk : key = k
  · subst hk
    simp [mem_members_unfile_self]
  · simp [members_unfile_of_ne hk, Ne.symm hk]

@[simp] theorem mem_members_fileAll {index : Index} {keys : List Name} {name k x : Name} :
    x ∈ (index.fileAll keys name).members k ↔ x ∈ index.members k ∨ (k ∈ keys ∧ x = name) := by
  unfold fileAll
  induction keys generalizing index with
  | nil => simp
  | cons key keys ih =>
      rw [List.foldl_cons, ih, mem_members_file, List.mem_cons]
      tauto

@[simp] theorem mem_members_unfileAll {index : Index} {keys : List Name} {name k x : Name} :
    x ∈ (index.unfileAll keys name).members k ↔ x ∈ index.members k ∧ ¬(k ∈ keys ∧ x = name) := by
  unfold unfileAll
  induction keys generalizing index with
  | nil => simp
  | cons key keys ih =>
      rw [List.foldl_cons, ih, mem_members_unfile, List.mem_cons]
      tauto

end Index

end ServiceHost
