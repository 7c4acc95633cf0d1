import ApiCollection.Json.Parser
import ApiCollection.Proofs.TableEntries

/-!
# Settled values

A value is settled when no object in it repeats a key. Settling makes a value settled, and leaves a
settled value as it is.
-/

namespace ApiCollection

namespace Table

variable {α : Type}

private theorem insert_of_new {t : Table α} {key : String} (new : key ∉ t.keys) (value : α) :
    t.insert key value = t ++ [(key, value)] := by
  induction t with
  | nil => rfl
  | cons e rest ih =>
    obtain ⟨k, v⟩ := e
    simp only [keys, List.map_cons, List.mem_cons, not_or] at new
    rw [insert, if_neg (by simpa using Ne.symm new.1), ih new.2, List.cons_append]

/-- Entries with distinct keys are the table of them. -/
theorem ofList_eq_self {t : Table α} (distinct : t.keys.Nodup) : ofList t = t := by
  have fold : ∀ (entries front : Table α), (front.keys ++ entries.keys).Nodup →
      entries.foldl (fun t e => insert t e.1 e.2) front = front ++ entries := by
    intro entries
    induction entries with
    | nil => simp
    | cons e entries ih =>
      intro front nodup
      have new : e.1 ∉ front.keys := by
        intro member
        exact List.disjoint_of_nodup_append nodup member List.mem_cons_self
      have grown : (keys (front ++ [e]) ++ keys entries).Nodup := by
        simpa [keys] using nodup
      rw [List.foldl_cons, insert_of_new new, ih _ grown, List.append_assoc]
      rfl
  exact fold t [] distinct

end Table

namespace Json

private theorem settledItems_eq (items : List Json) : settledItems items = items.map settled := by
  induction items with
  | nil => rfl
  | cons item rest ih => rw [settledItems, ih, List.map_cons]

theorem settledMembers_eq (members : List (String × Json)) :
    settledMembers members = members.map fun m => (m.1, m.2.settled) := by
  induction members with
  | nil => rfl
  | cons m rest ih => rw [settledMembers, ih, List.map_cons]

/-- An object is settled when its keys are distinct and its values are settled. -/
theorem settled_object_eq_self {members : Members} (distinct : members.keys.Nodup)
    (values : ∀ m ∈ members, m.2.settled = m.2) : (object members).settled = object members := by
  have same : members.map (fun m => (m.1, m.2.settled)) = members := by
    conv_rhs => rw [← List.map_id' members]
    exact List.map_congr_left fun m hm => Prod.ext rfl (values m hm)
  rw [settled, settledMembers_eq, same, Table.ofList_eq_self distinct]

mutual

theorem settled_settled : ∀ j : Json, j.settled.settled = j.settled
  | .null | .bool _ | .number _ | .string _ => rfl
  | .array items => by
    rw [settled, settled, settledItems_eq, settledItems_eq, List.map_map]
    exact congrArg array (List.map_congr_left (settled_settled_items items))
  | .object members => by
    rw [settled]
    refine settled_object_eq_self (Table.keys_ofList _).1 ?_
    intro m hm
    have written := Table.mem_ofList hm
    rw [settledMembers_eq] at written
    obtain ⟨old, member, rfl⟩ := List.mem_map.1 written
    exact settled_settled_members members old member

theorem settled_settled_items : ∀ items : List Json, ∀ j ∈ items, j.settled.settled = j.settled
  | item :: rest => by
    rw [List.forall_mem_cons]
    exact ⟨settled_settled item, settled_settled_items rest⟩
  | [] => nofun

theorem settled_settled_members : ∀ members : List (String × Json),
    ∀ m ∈ members, m.2.settled.settled = m.2.settled
  | (_, value) :: rest => by
    rw [List.forall_mem_cons]
    exact ⟨settled_settled value, settled_settled_members rest⟩
  | [] => nofun

end

end Json
end ApiCollection
