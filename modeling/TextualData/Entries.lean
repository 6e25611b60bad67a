/-!
# Ordered entries

`Entries α` lists values under string keys in the order in which the keys were first given.
Inserting under a key that is present replaces its value and keeps its place, so keys that are
distinct stay distinct.
-/

universe u

namespace TextualData

/-- Values under string keys, in order. -/
abbrev Entries (α : Type u) := List (String × α)

namespace Entries

variable {α : Type u}

/-- The value under a key. -/
def get? : Entries α → String → Option α
  | [], _ => none
  | (k, v) :: es, key => if k = key then some v else get? es key

/-- Puts a value under a key: in the key's place if it is present, at the end otherwise. -/
def insert : Entries α → String → α → Entries α
  | [], key, v => [(key, v)]
  | (k, w) :: es, key, v => if k = key then (k, v) :: es else (k, w) :: insert es key v

/-- Removes a key; the other entries keep their order. -/
def erase : Entries α → String → Entries α
  | [], _ => []
  | (k, v) :: es, key => if k = key then es else (k, v) :: erase es key

/-- Inserts the given entries one after the other. -/
def merge (es : Entries α) (more : Entries α) : Entries α :=
  more.foldl (fun es e => es.insert e.1 e.2) es

/-- The entries that result from inserting a list of pairs in order. -/
def ofList (l : List (String × α)) : Entries α :=
  merge [] l

/-- The keys in order. -/
def keys (es : Entries α) : List String :=
  es.map Prod.fst

/-- Whether no key occurs twice. -/
def HasDistinctKeys (es : Entries α) : Prop :=
  es.keys.Nodup

theorem get?_insert (es : Entries α) (key other : String) (v : α) :
    (es.insert key v).get? other = if key = other then some v else es.get? other := by
  induction es with
  | nil => simp [insert, get?]
  | cons e es ih =>
    obtain ⟨k, w⟩ := e
    by_cases hk : k = key
    · subst hk; by_cases ho : k = other <;> simp [insert, get?, ho]
    · by_cases ho : k = other
      · subst ho; simp [insert, get?, hk, Ne.symm hk]
      · simp [insert, get?, hk, ho, ih]

theorem keys_insert (es : Entries α) (key : String) (v : α) :
    (es.insert key v).keys = if key ∈ es.keys then es.keys else es.keys ++ [key] := by
  induction es with
  | nil => simp [insert, keys]
  | cons e es ih =>
    obtain ⟨k, w⟩ := e
    by_cases hk : k = key
    · subst hk; simp [insert, keys]
    · have hne : key ≠ k := Ne.symm hk
      simp only [keys] at ih
      by_cases hm : key ∈ es.map Prod.fst <;> simp_all [insert, keys]

theorem HasDistinctKeys.insert {es : Entries α} (h : es.HasDistinctKeys) (key : String) (v : α) :
    (es.insert key v).HasDistinctKeys := by
  simp only [HasDistinctKeys, keys_insert] at h ⊢
  split
  · exact h
  · rename_i hn
    refine List.nodup_append.2 ⟨h, by simp, ?_⟩
    intro a ha b hb
    simp only [List.mem_singleton] at hb
    subst hb
    exact fun hab => hn (hab ▸ ha)

end Entries
end TextualData
