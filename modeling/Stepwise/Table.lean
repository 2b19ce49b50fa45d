/-! Finite tables whose keys keep the order of their first writing. Overwriting a key changes its
value and not its place. -/
namespace Stepwise

universe u v

/-- The keys are distinct, so a table is a finite map together with an order of its keys. -/
structure Table (α : Type u) (β : Type v) where
  entries : List (α × β)
  distinct : (entries.map Prod.fst).Nodup

namespace Table

variable {α : Type u} {β : Type v} [DecidableEq α]

def putEntry (key : α) (value : β) : List (α × β) → List (α × β)
  | [] => [(key, value)]
  | e :: rest => if e.1 = key then (key, value) :: rest else e :: putEntry key value rest

omit [DecidableEq α] in
theorem nodupSnoc {keys : List α} {key : α} (h : keys.Nodup) (fresh : key ∉ keys) :
    (keys ++ [key]).Nodup := by
  rw [List.nodup_append]
  refine ⟨h, by simp, ?_⟩
  intro a mem b hb same
  simp only [List.mem_singleton] at hb
  exact fresh (hb ▸ same ▸ mem)

theorem keysPutEntry (key : α) (value : β) (entries : List (α × β)) :
    (putEntry key value entries).map Prod.fst =
      if key ∈ entries.map Prod.fst then entries.map Prod.fst
      else entries.map Prod.fst ++ [key] := by
  induction entries with
  | nil => simp [putEntry]
  | cons e rest ih =>
    by_cases h : e.1 = key
    · simp [putEntry, h]
    · have other : ¬ key = e.1 := fun same => h same.symm
      simp only [putEntry, h, if_false, List.map_cons, ih, List.mem_cons, other, false_or]
      split <;> simp

def empty : Table α β := ⟨[], by simp⟩

instance : Inhabited (Table α β) := ⟨empty⟩

def keys (t : Table α β) : List α := t.entries.map Prod.fst

def size (t : Table α β) : Nat := t.entries.length

def get? (t : Table α β) (key : α) : Option β := (t.entries.find? (·.1 = key)).map Prod.snd

def contains (t : Table α β) (key : α) : Bool := (t.get? key).isSome

def put (t : Table α β) (key : α) (value : β) : Table α β :=
  ⟨putEntry key value t.entries, by
    rw [keysPutEntry]
    split
    · exact t.distinct
    · exact nodupSnoc t.distinct (by assumption)⟩

def erase (t : Table α β) (key : α) : Table α β :=
  ⟨t.entries.filter fun e => e.1 ≠ key, t.distinct.sublist (List.filter_sublist.map _)⟩

def ofList (pairs : List (α × β)) : Table α β :=
  pairs.foldl (fun t pair => t.put pair.1 pair.2) empty

end Table
end Stepwise
