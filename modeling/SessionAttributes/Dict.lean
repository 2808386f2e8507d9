namespace SessionAttributes

def Ordered {α : Type} (entries : List (String × α)) : Prop :=
  entries.Pairwise fun a b => a.1 < b.1

/-- A finite map from texts, listed in key order. Two maps with the same bindings are equal. -/
structure Dict (α : Type) where
  entries : List (String × α)
  ordered : Ordered entries

namespace Dict

variable {α : Type}

theorem ext {m n : Dict α} (h : m.entries = n.entries) : m = n := by
  obtain ⟨entries, _⟩ := m
  obtain ⟨entries', _⟩ := n
  cases h
  rfl

instance [DecidableEq α] : DecidableEq (Dict α) := fun m n =>
  decidable_of_iff (m.entries = n.entries) ⟨ext, fun h => h ▸ rfl⟩

def empty : Dict α := ⟨[], List.Pairwise.nil⟩

instance : Inhabited (Dict α) := ⟨empty⟩

def keys (m : Dict α) : List String := m.entries.map Prod.fst

def values (m : Dict α) : List α := m.entries.map Prod.snd

def size (m : Dict α) : Nat := m.entries.length

def isEmpty (m : Dict α) : Bool := m.entries.isEmpty

def get? (m : Dict α) (key : String) : Option α := m.entries.lookup key

def insertEntry (key : String) (value : α) : List (String × α) → List (String × α)
  | [] => [(key, value)]
  | (k, v) :: rest =>
    if key < k then (key, value) :: (k, v) :: rest
    else if key = k then (key, value) :: rest
    else (k, v) :: insertEntry key value rest

theorem mem_insertEntry {key : String} {value : α} {entries : List (String × α)}
    {e : String × α} (h : e ∈ insertEntry key value entries) : e = (key, value) ∨ e ∈ entries := by
  induction entries with
  | nil => simpa [insertEntry] using h
  | cons head rest ih =>
    obtain ⟨k, v⟩ := head
    simp only [insertEntry] at h
    split at h
    · simpa using h
    · split at h
      · rcases List.mem_cons.1 h with h | h
        · exact Or.inl h
        · exact Or.inr (List.mem_cons_of_mem _ h)
      · rcases List.mem_cons.1 h with h | h
        · exact Or.inr (h ▸ List.mem_cons_self)
        · rcases ih h with h | h
          · exact Or.inl h
          · exact Or.inr (List.mem_cons_of_mem _ h)

theorem insertEntry_ordered {key : String} {value : α} {entries : List (String × α)}
    (h : Ordered entries) : Ordered (insertEntry key value entries) := by
  induction entries with
  | nil => exact List.pairwise_singleton _ _
  | cons head rest ih =>
    obtain ⟨k, v⟩ := head
    obtain ⟨first, tail⟩ := List.pairwise_cons.1 h
    simp only [insertEntry]
    split
    · rename_i before
      refine List.pairwise_cons.2 ⟨fun e he => ?_, h⟩
      rcases List.mem_cons.1 he with rfl | he
      · exact before
      · exact String.lt_trans before (first e he)
    · split
      · rename_i same
        exact List.pairwise_cons.2 ⟨fun e he => same ▸ first e he, tail⟩
      · rename_i notBefore notSame
        refine List.pairwise_cons.2 ⟨fun e he => ?_, ih tail⟩
        rcases mem_insertEntry he with rfl | he
        · rcases Decidable.em (k < key) with after | after
          · exact after
          · exact absurd (String.le_antisymm after notBefore) notSame
        · exact first e he

def insert (m : Dict α) (key : String) (value : α) : Dict α :=
  ⟨insertEntry key value m.entries, insertEntry_ordered m.ordered⟩

def erase (m : Dict α) (key : String) : Dict α :=
  ⟨m.entries.filter fun e => e.1 != key, m.ordered.filter _⟩

/-- The map of the given bindings. Of equal keys the last one counts. -/
def ofList (entries : List (String × α)) : Dict α :=
  entries.foldl (fun m e => m.insert e.1 e.2) empty

end Dict
end SessionAttributes
