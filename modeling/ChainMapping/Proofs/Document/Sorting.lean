import Mathlib.Data.String.Basic
import ChainMapping.Document.Basic
import ChainMapping.Ordered

/-!
# Sorted documents

Sorting puts the members of every table in the order of their names and keeps one of each name, so
no two members of a table in a sorted document have the same name.
-/

namespace ChainMapping
namespace Document

def hasParts : Document → Bool
  | list _ | table _ => true
  | _ => false

/-- No two members of a table in the document have the same name. -/
inductive Distinct : Document → Prop where
  | whole {d : Document} (whole : d.hasParts = false) : Distinct d
  | list {parts : List Document} (below : ∀ d ∈ parts, Distinct d) : Distinct (list parts)
  | table {members : List (String × Document)} (names : (Ordered.keys members).Nodup)
      (below : ∀ member ∈ members, Distinct member.2) : Distinct (table members)

namespace Distinct

theorem of_mem {parts : List Document} (h : (Document.list parts).Distinct) {d : Document}
    (hmem : d ∈ parts) : d.Distinct := by
  cases h with
  | whole whole => cases whole
  | list below => exact below d hmem

variable {members : List (String × Document)}

theorem nodup_keys (h : (Document.table members).Distinct) :
    (Ordered.keys members).Nodup := by
  cases h with
  | whole whole => cases whole
  | table names => exact names

theorem of_member (h : (Document.table members).Distinct) {name : String} {d : Document}
    (hmem : (name, d) ∈ members) : d.Distinct := by
  cases h with
  | whole whole => cases whole
  | table _ below => exact below _ hmem

end Distinct

variable {α : Type} {name : String} {value : α} {members : List (String × α)}

theorem mem_of_mem_insertMember {member : String × α}
    (h : member ∈ insertMember name value members) : member = (name, value) ∨ member ∈ members := by
  induction members with
  | nil => exact .inl (List.mem_singleton.mp h)
  | cons first rest ih =>
    rw [insertMember] at h
    split_ifs at h
    · rcases List.mem_cons.mp h with h | h
      · exact .inl h
      · exact .inr (List.mem_cons_of_mem _ h)
    · exact List.mem_cons.mp h
    · rcases List.mem_cons.mp h with h | h
      · exact .inr (h ▸ List.mem_cons_self)
      · exact (ih h).imp_right (List.mem_cons_of_mem _)

theorem pairwise_insertMember (h : members.Pairwise (·.1 < ·.1)) :
    (insertMember name value members).Pairwise (·.1 < ·.1) := by
  induction members with
  | nil => exact List.pairwise_singleton _ _
  | cons first rest ih =>
    obtain ⟨other, kept⟩ := first
    obtain ⟨hfirst, hrest⟩ := List.pairwise_cons.mp h
    rw [insertMember]
    split_ifs with hsame hbefore
    · exact List.pairwise_cons.mpr ⟨hsame ▸ hfirst, hrest⟩
    · refine List.pairwise_cons.mpr ⟨fun member hmem => ?_, h⟩
      rcases List.mem_cons.mp hmem with rfl | hmem
      · exact hbefore
      · exact lt_trans hbefore (hfirst member hmem)
    · refine List.pairwise_cons.mpr ⟨fun member hmem => ?_, ih hrest⟩
      rcases mem_of_mem_insertMember hmem with rfl | hmem
      · exact lt_of_le_of_ne (not_lt.mp hbefore) (Ne.symm hsame)
      · exact hfirst member hmem

theorem mem_of_mem_sortMembers {member : String × α} (h : member ∈ sortMembers members) :
    member ∈ members := by
  have hfold : ∀ (rest sorted : List (String × α)),
      member ∈ rest.foldl (fun sorted first => insertMember first.1 first.2 sorted) sorted →
        member ∈ sorted ∨ member ∈ rest := by
    intro rest
    induction rest with
    | nil => exact fun sorted h => .inl h
    | cons first rest ih =>
      intro sorted h
      rcases ih _ h with h | h
      · rcases mem_of_mem_insertMember h with rfl | h
        · exact .inr List.mem_cons_self
        · exact .inl h
      · exact .inr (List.mem_cons_of_mem _ h)
  exact (hfold members [] h).resolve_left List.not_mem_nil

theorem pairwise_sortMembers (members : List (String × α)) :
    (sortMembers members).Pairwise (·.1 < ·.1) := by
  have hfold : ∀ (rest sorted : List (String × α)), sorted.Pairwise (·.1 < ·.1) →
      (rest.foldl (fun sorted first => insertMember first.1 first.2 sorted) sorted).Pairwise
        (·.1 < ·.1) := by
    intro rest
    induction rest with
    | nil => exact fun sorted h => h
    | cons first rest ih => exact fun sorted h => ih _ (pairwise_insertMember h)
  exact hfold members [] List.Pairwise.nil

theorem nodup_keys_sortMembers (members : List (String × α)) :
    (Ordered.keys (sortMembers members)).Nodup := by
  rw [Ordered.keys, List.Nodup, List.pairwise_map]
  exact (pairwise_sortMembers members).imp fun h => ne_of_lt h

mutual

theorem distinct_sorted : (d : Document) → d.sorted.Distinct
  | .list items => .list (distinct_sortedItems items)
  | .table members => .table (nodup_keys_sortMembers _) fun member hmem =>
      distinct_sortedMembers members member (mem_of_mem_sortMembers hmem)
  | .null | .bool _ | .int _ | .float _ | .text _ | .moment _ | .unreadable =>
    .whole rfl

theorem distinct_sortedItems : (items : List Document) → ∀ d ∈ sortedItems items, d.Distinct
  | [] => fun d hmem => absurd hmem List.not_mem_nil
  | item :: rest => by
    intro d hmem
    rcases List.mem_cons.mp hmem with heq | hmem
    · exact heq ▸ distinct_sorted item
    · exact distinct_sortedItems rest d hmem

theorem distinct_sortedMembers : (members : List (String × Document)) →
    ∀ member ∈ sortedMembers members, member.2.Distinct
  | [] => fun member hmem => absurd hmem List.not_mem_nil
  | (name, value) :: rest => by
    intro member hmem
    rcases List.mem_cons.mp hmem with heq | hmem
    · exact heq ▸ distinct_sorted value
    · exact distinct_sortedMembers rest member hmem

end

end Document
end ChainMapping
