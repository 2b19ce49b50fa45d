import Stepwise.Table

/-! Tables as finite maps with an order of keys: a write changes one value and appends at most one
key, and a table is fixed by its keys in order and its values. -/
namespace Stepwise.Table

universe u v
variable {α : Type u} {β : Type v} [DecidableEq α]

omit [DecidableEq α] in
theorem ofEntries {a b : Table α β} (same : a.entries = b.entries) : a = b := by
  cases a
  cases b
  cases same
  rfl

theorem findPutEntry (key other : α) (value : β) (entries : List (α × β)) :
    ((putEntry key value entries).find? (·.1 = other)).map Prod.snd =
      if other = key then some value else (entries.find? (·.1 = other)).map Prod.snd := by
  induction entries with
  | nil =>
    by_cases h : other = key
    · simp [putEntry, h]
    · simp [putEntry, h, Ne.symm h]
  | cons e rest ih =>
    by_cases here : e.1 = key
    · by_cases h : other = key
      · simp [putEntry, here, h]
      · have apart : ¬ key = other := fun same => h same.symm
        simp [putEntry, here, h, apart]
    · by_cases found : e.1 = other
      · have apart : ¬ other = key := fun same => here (found.trans same)
        simp [putEntry, found, apart]
      · simpa [putEntry, here, found] using ih

theorem getPut (t : Table α β) (key other : α) (value : β) :
    (t.put key value).get? other = if other = key then some value else t.get? other :=
  findPutEntry key other value t.entries

theorem keysPut (t : Table α β) (key : α) (value : β) :
    (t.put key value).keys = if key ∈ t.keys then t.keys else t.keys ++ [key] :=
  keysPutEntry key value t.entries

theorem putEntryNew {key : α} {entries : List (α × β)} (fresh : key ∉ entries.map Prod.fst) (value : β) :
    putEntry key value entries = entries ++ [(key, value)] := by
  induction entries with
  | nil => rfl
  | cons e rest ih =>
    simp only [List.map_cons, List.mem_cons, not_or] at fresh
    rw [putEntry, if_neg (Ne.symm fresh.1), ih fresh.2, List.cons_append]

/- A key that is new is written behind the others. -/
theorem entriesPut {t : Table α β} {key : α} (fresh : key ∉ t.keys) (value : β) :
    (t.put key value).entries = t.entries ++ [(key, value)] :=
  putEntryNew fresh value

theorem keysGrow (t : Table α β) (key : α) (value : β) : t.keys <+: (t.put key value).keys := by
  rw [keysPut]
  split
  · exact List.prefix_refl _
  · exact List.prefix_append _ _

theorem getNone (t : Table α β) (key : α) : t.get? key = none ↔ key ∉ t.keys := by
  unfold get? keys
  rw [Option.map_eq_none_iff, List.find?_eq_none]
  constructor
  · intro absent member
    obtain ⟨e, inside, same⟩ := List.mem_map.mp member
    exact absent e inside (decide_eq_true same)
  · intro fresh e inside same
    exact fresh (List.mem_map.mpr ⟨e, inside, of_decide_eq_true same⟩)

theorem getSome (t : Table α β) (key : α) : (∃ value, t.get? key = some value) ↔ key ∈ t.keys := by
  rw [← Option.isSome_iff_exists, ← Option.ne_none_iff_isSome, ne_eq, getNone, Classical.not_not]

/- An entry is what is found under its key. -/
theorem getEntry {t : Table α β} {entry : α × β} (listed : entry ∈ t.entries) :
    t.get? entry.1 = some entry.2 := by
  obtain ⟨before, after, split⟩ := List.append_of_mem listed
  have distinct := t.distinct
  rw [split, List.map_append, List.nodup_append] at distinct
  have first : t.entries.find? (·.1 = entry.1) = some entry := by
    refine List.find?_eq_some_iff_append.mpr ⟨decide_eq_true rfl, before, after, split, ?_⟩
    intro e inside
    have apart := distinct.2.2 e.1 (List.mem_map_of_mem inside) entry.1 List.mem_cons_self
    simp [apart]
  rw [get?, first]
  rfl

omit [DecidableEq α] in
theorem keysEmpty : (empty : Table α β).keys = [] := rfl

theorem getErase (t : Table α β) (key other : α) :
    (t.erase key).get? other = if other = key then none else t.get? other := by
  unfold get? erase
  rw [List.find?_filter]
  split
  · rename_i same
    refine Option.map_eq_none_iff.mpr (List.find?_eq_none.mpr fun e _ found => ?_)
    simp only [decide_eq_true_eq] at found
    exact found.1 (found.2.trans same)
  · rename_i apart
    congr 2
    funext e
    by_cases found : e.1 = other <;> simp [found, apart]

/- What is found behind a number of writes was written by one of them, or before. -/
theorem getPutAll {pairs : List (α × β)} {t : Table α β} {key : α} {value : β}
    (h : (pairs.foldl (fun t pair => t.put pair.1 pair.2) t).get? key = some value) :
    (key, value) ∈ pairs ∨ t.get? key = some value := by
  induction pairs generalizing t with
  | nil => exact .inr h
  | cons pair rest ih =>
    rcases ih h with later | before
    · exact .inl (List.mem_cons_of_mem _ later)
    · rw [getPut] at before
      split at before
      · rename_i same
        cases before
        exact .inl (same ▸ List.mem_cons_self)
      · exact .inr before

theorem getOfList {pairs : List (α × β)} {key : α} {value : β}
    (h : (ofList pairs).get? key = some value) : (key, value) ∈ pairs :=
  (getPutAll h).elim id nofun

theorem entriesOfLookup {a b : List (α × β)} (unique : (a.map Prod.fst).Nodup)
    (keys : a.map Prod.fst = b.map Prod.fst)
    (values : ∀ key, (a.find? (·.1 = key)).map Prod.snd = (b.find? (·.1 = key)).map Prod.snd) :
    a = b := by
  induction a generalizing b with
  | nil => exact (List.map_eq_nil_iff.mp keys.symm).symm
  | cons e rest ih =>
    cases b with
    | nil => simp at keys
    | cons d tail =>
      obtain ⟨first, others⟩ := List.cons.inj keys
      obtain ⟨fresh, unique⟩ := List.nodup_cons.mp unique
      have head : e = d := by
        have same := values e.1
        simp only [List.find?_cons, decide_true, first.symm, Option.map_some] at same
        exact Prod.ext first (Option.some.inj same)
      subst head
      congr 1
      apply ih unique others
      intro key
      by_cases same : e.1 = key
      · -- The head's key occurs in neither tail, so both lookups there fail.
        have gone : ∀ l : List (α × β), l.map Prod.fst = rest.map Prod.fst →
            l.find? (·.1 = key) = none := by
          intro l keysEq
          rw [List.find?_eq_none]
          intro x inside found
          have foundKey : x.1 = key := of_decide_eq_true found
          apply fresh
          rw [← keysEq, same, ← foundKey]
          exact List.mem_map_of_mem inside
        rw [gone rest rfl, gone tail others.symm]
      · simpa [same] using values key

theorem ofLookup {a b : Table α β} (keys : a.keys = b.keys) (values : ∀ key, a.get? key = b.get? key) :
    a = b :=
  ofEntries (entriesOfLookup a.distinct keys values)

/- What writes leave of which the last to a key wins: the keys in the order in which each was written
first, and under a key what was written to it last. -/
structure LastWins (t : Table α β) (writes : List (α × β)) : Prop where
  keys : t.keys = (writes.map Prod.fst).eraseDups
  values : ∀ key, t.get? key = (writes.reverse.find? (·.1 = key)).map Prod.snd

theorem eraseDupsNodup {keys : List α} (distinct : keys.Nodup) : keys.eraseDups = keys := by
  induction keys with
  | nil => rfl
  | cons key rest ih =>
    obtain ⟨fresh, distinct⟩ := List.nodup_cons.mp distinct
    have others : rest.filter (fun other => !other == key) = rest :=
      List.filter_eq_self.mpr fun other inside => by
        simpa using fun same : other = key => fresh (same ▸ inside)
    rw [List.eraseDups_cons, others, ih distinct]

theorem eraseDupsSnoc (keys : List α) (key : α) : (keys ++ [key]).eraseDups =
    if key ∈ keys.eraseDups then keys.eraseDups else keys.eraseDups ++ [key] := by
  rw [List.eraseDups_append, List.removeAll]
  by_cases known : key ∈ keys <;> simp [known, List.eraseDups_cons]

namespace LastWins

variable {s t : Table α β} {writes : List (α × β)}

/- A table is what its own entries leave. -/
theorem entries (t : Table α β) : t.LastWins t.entries where
  keys := (eraseDupsNodup t.distinct).symm
  values key := by
    cases found : t.entries.reverse.find? (·.1 = key) with
    | none =>
      rw [Option.map_none, getNone]
      intro known
      obtain ⟨entry, inside, same⟩ := List.mem_map.mp known
      exact List.find?_eq_none.mp found entry (List.mem_reverse.mpr inside) (decide_eq_true same)
    | some entry =>
      have same : entry.1 = key := of_decide_eq_true (List.find?_some found :)
      rw [← same]
      exact getEntry (List.mem_reverse.mp (List.mem_of_find?_eq_some found))

theorem put (h : t.LastWins writes) (key : α) (value : β) :
    (t.put key value).LastWins (writes ++ [(key, value)]) where
  keys := by
    rw [keysPut, List.map_append, List.map_singleton, eraseDupsSnoc, h.keys]
  values other := by
    rw [getPut, List.reverse_append, List.reverse_singleton, List.singleton_append, List.find?_cons]
    by_cases same : other = key
    · simp [same]
    · simp [same, Ne.symm same, h.values]

theorem putAll (h : t.LastWins writes) (more : List (α × β)) :
    (more.foldl (fun t entry => t.put entry.1 entry.2) t).LastWins (writes ++ more) := by
  induction more generalizing t writes with
  | nil => simpa using h
  | cons entry rest ih =>
    have behind := ih (h.put entry.1 entry.2)
    rw [List.append_assoc] at behind
    exact behind

/- The writes determine the table. -/
theorem unique (h : s.LastWins writes) (k : t.LastWins writes) : s = t :=
  ofLookup (h.keys.trans k.keys.symm) fun key => (h.values key).trans (k.values key).symm

end LastWins
end Stepwise.Table
