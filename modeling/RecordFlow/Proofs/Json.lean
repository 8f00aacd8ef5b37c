import Mathlib.Data.List.Induction
import RecordFlow.Json

/-! The members of JSON objects. Putting members into an object one by one sorts them by their keys
and keeps the last of each key, which is said here without any order of insertion. Main statement:
members that stand in increasing order of their keys are left as they are, and any others become the
last ones of their keys, in order. -/

namespace RecordFlow

/-! ### Named entries -/

section Entries

variable {β γ : Type}

/-- Of the entries of each name the last. -/
def lastOfNames : List (String × β) → List (String × β)
  | [] => []
  | entry :: rest =>
    if entry.1 ∈ rest.map (·.1) then lastOfNames rest else entry :: lastOfNames rest

/-- The last entries of their names in order of the names. -/
def sortByName (entries : List (String × β)) : List (String × β) :=
  (lastOfNames entries).mergeSort fun a b => a.1 ≤ b.1

/-- Each name once, in increasing order. -/
def Increasing (entries : List (String × β)) : Prop := entries.Pairwise (·.1 < ·.1)

theorem Increasing.nodup {entries : List (String × β)} (h : Increasing entries) :
    (entries.map (·.1)).Nodup :=
  List.pairwise_map.mpr (h.imp fun less => String.ne_of_lt less)

theorem lastOfNames_sublist (entries : List (String × β)) :
    (lastOfNames entries).Sublist entries := by
  induction entries with
  | nil => exact .slnil
  | cons entry rest ih =>
    rw [lastOfNames]
    split
    · exact ih.cons _
    · exact ih.cons_cons _

theorem lastOfNames_nodup (entries : List (String × β)) :
    ((lastOfNames entries).map (·.1)).Nodup := by
  induction entries with
  | nil => exact .nil
  | cons entry rest ih =>
    rw [lastOfNames]
    split
    · exact ih
    · next fresh =>
      exact List.nodup_cons.mpr
        ⟨fun h => fresh (((lastOfNames_sublist rest).map _).subset h), ih⟩

theorem lastOfNames_of_nodup {entries : List (String × β)}
    (distinct : (entries.map (·.1)).Nodup) : lastOfNames entries = entries := by
  induction entries with
  | nil => rfl
  | cons entry rest ih =>
    obtain ⟨fresh, distinct⟩ := List.nodup_cons.mp distinct
    rw [lastOfNames, if_neg fresh, ih distinct]

/-- An entry at the end replaces those of its name. -/
theorem lastOfNames_concat (entries : List (String × β)) (entry : String × β) :
    lastOfNames (entries ++ [entry]) =
      (lastOfNames entries).filter (·.1 ≠ entry.1) ++ [entry] := by
  induction entries with
  | nil => rfl
  | cons first rest ih =>
    rw [List.cons_append, lastOfNames, lastOfNames, ih]
    by_cases later : first.1 ∈ rest.map (·.1)
    · rw [if_pos (by simp_all), if_pos later]
    · rw [if_neg later, List.filter_cons]
      by_cases same : first.1 = entry.1
      · rw [if_pos (by simp [same]), if_neg (by simp [same])]
      · rw [if_neg (by simp_all), if_pos (by simp [same]), List.cons_append]

theorem lastOfNames_map (f : β → γ) (entries : List (String × β)) :
    lastOfNames (entries.map fun entry => (entry.1, f entry.2)) =
      (lastOfNames entries).map fun entry => (entry.1, f entry.2) := by
  induction entries with
  | nil => rfl
  | cons entry rest ih =>
    rw [List.map_cons, lastOfNames, lastOfNames, ih, List.map_map]
    split <;> simp_all

theorem sortByName_map (f : β → γ) (entries : List (String × β)) :
    sortByName (entries.map fun entry => (entry.1, f entry.2)) =
      (sortByName entries).map fun entry => (entry.1, f entry.2) := by
  rw [sortByName, sortByName, lastOfNames_map]
  refine Eq.symm (List.map_mergeSort ?_)
  exact fun _ _ _ _ => rfl

theorem sortByName_increasing (entries : List (String × β)) : Increasing (sortByName entries) := by
  have perm := List.mergeSort_perm (lastOfNames entries) fun a b => a.1 ≤ b.1
  have distinct : (sortByName entries).Pairwise fun a b => a.1 ≠ b.1 :=
    List.pairwise_map.mp ((perm.map _).nodup_iff.mpr (lastOfNames_nodup entries))
  have sorted : (sortByName entries).Pairwise fun a b => decide (a.1 ≤ b.1) = true :=
    List.pairwise_mergeSort (fun _ _ _ => by simpa using String.le_trans)
      (fun a b => by simpa using String.le_total a.1 b.1) _
  exact (sorted.and distinct).imp fun ⟨le, ne⟩ => Std.lt_of_le_of_ne (of_decide_eq_true le) ne

theorem mem_of_mem_sortByName {entries : List (String × β)} {entry : String × β}
    (h : entry ∈ sortByName entries) : entry ∈ entries :=
  (lastOfNames_sublist entries).subset ((List.mergeSort_perm _ _).mem_iff.mp h)

/-- There is one way to put entries of different names in order. -/
theorem Increasing.eq_sortByName {sorted entries : List (String × β)} (h : Increasing sorted)
    (perm : sorted.Perm (lastOfNames entries)) : sorted = sortByName entries := by
  refine List.Perm.eq_of_pairwise (fun _ _ _ _ less less' => ?_) h (sortByName_increasing entries)
    (perm.trans (List.mergeSort_perm _ _).symm)
  exact absurd less' (String.lt_asymm less)

theorem Increasing.sortByName_eq {entries : List (String × β)} (h : Increasing entries) :
    sortByName entries = entries :=
  (h.eq_sortByName (by rw [lastOfNames_of_nodup h.nodup])).symm

end Entries

/-! ### Members -/

namespace Json

variable {members : List (String × Json)}

/-- A member that is put in its place replaces those of its key. -/
theorem insertMember_perm (sorted : Increasing members) (key : String) (value : Json) :
    (insertMember key value members).Perm (members.filter (·.1 ≠ key) ++ [(key, value)]) := by
  induction members with
  | nil => exact .refl _
  | cons first rest ih =>
    obtain ⟨k, v⟩ := first
    obtain ⟨above, sorted⟩ := List.pairwise_cons.mp sorted
    have others (le : key ≤ k) : rest.filter (·.1 ≠ key) = rest :=
      List.filter_eq_self.mpr fun member h =>
        decide_eq_true (String.ne_of_lt (Std.lt_of_le_of_lt le (above member h))).symm
    rw [insertMember]
    split
    · next before =>
      rw [List.filter_cons_of_pos (by simpa using (String.ne_of_lt before).symm),
        others (Std.le_of_lt before)]
      exact (List.perm_append_singleton _ _).symm
    split
    · next same =>
      subst same
      rw [List.filter_cons_of_neg (by simp), others (String.le_refl _)]
      exact (List.perm_append_singleton _ _).symm
    · next other =>
      rw [List.filter_cons_of_pos (by simpa using Ne.symm other)]
      exact (ih sorted).cons _

theorem insertMember_increasing (sorted : Increasing members) (key : String) (value : Json) :
    Increasing (insertMember key value members) := by
  induction members with
  | nil => exact List.pairwise_singleton _ _
  | cons first rest ih =>
    obtain ⟨k, v⟩ := first
    obtain ⟨above, tail⟩ := List.pairwise_cons.mp sorted
    rw [insertMember]
    split
    · next before =>
      refine List.pairwise_cons.mpr ⟨fun member h => ?_, sorted⟩
      rcases List.mem_cons.mp h with rfl | h
      · exact before
      · exact String.lt_trans before (above member h)
    split
    · next same =>
      subst same
      exact List.pairwise_cons.mpr ⟨above, tail⟩
    · next after other =>
      refine List.pairwise_cons.mpr ⟨fun member h => ?_, ih tail⟩
      rw [(insertMember_perm tail key value).mem_iff, List.mem_append, List.mem_singleton] at h
      rcases h with h | rfl
      · exact above member (List.mem_filter.mp h).1
      · exact Std.lt_of_le_of_ne (String.not_lt.mp after) (Ne.symm other)

/-- What stands in an object does not depend on the way its members are put in their places. -/
theorem sortMembers_eq (members : List (String × Json)) :
    sortMembers members = sortByName members := by
  suffices inOrder : Increasing (sortMembers members) ∧
      (sortMembers members).Perm (lastOfNames members) from inOrder.1.eq_sortByName inOrder.2
  induction members using List.reverseRecOn with
  | nil => exact ⟨.nil, .refl _⟩
  | append_singleton members member ih =>
    obtain ⟨sorted, perm⟩ := ih
    have last : sortMembers (members ++ [member]) =
        insertMember member.1 member.2 (sortMembers members) := by
      rw [sortMembers, List.foldl_append]
      rfl
    rw [last, lastOfNames_concat]
    exact ⟨insertMember_increasing sorted _ _,
      (insertMember_perm sorted _ _).trans ((perm.filter _).append_right _)⟩

end Json

end RecordFlow
