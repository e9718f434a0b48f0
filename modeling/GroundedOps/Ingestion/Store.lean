import GroundedOps.Library.Dict
import GroundedOps.Python.Text

/-!
# The chunk table

A table keeps its rows under their chunk ids, and every stored vector has the
dimension of the column. Each method of the writer is one transaction. `F` stands for
the numbers of a vector.
-/

namespace GroundedOps.Ingestion

open Python

/-- A fully formed chunk ready to persist. -/
structure ChunkRow (F : Type) where
  chunkId : Text
  docId : Text
  sourceType : Text
  title : Text
  chunkIndex : ℕ
  charStart : ℕ
  charEnd : ℕ
  content : Text
  embedding : List F
  embeddingModel : Text
  createdAt : ℤ

variable {F : Type} {dim : ℕ}

structure ChunkTable (F : Type) (dim : ℕ) where
  rows : Dict Text (ChunkRow F)
  keyed : ∀ p ∈ rows.items, p.2.chunkId = p.1
  sized : ∀ p ∈ rows.items, p.2.embedding.length = dim

namespace ChunkTable

/-- Rows that stand under their own identifiers. -/
theorem keyed_map (rows : List (ChunkRow F)) :
    ∀ p ∈ rows.map (fun r => (r.chunkId, r)), p.2.chunkId = p.1 := by
  intro p hp
  obtain ⟨r, -, rfl⟩ := List.mem_map.mp hp
  rfl

theorem sized_map {rows : List (ChunkRow F)} (h : ∀ r ∈ rows, r.embedding.length = dim) :
    ∀ p ∈ rows.map (fun r => (r.chunkId, r)), p.2.embedding.length = dim := by
  intro p hp
  obtain ⟨r, hr, rfl⟩ := List.mem_map.mp hp
  exact h r hr

def empty : ChunkTable F dim := ⟨.empty, by simp [Dict.empty], by simp [Dict.empty]⟩

/-- Inserts a row. A row that is there already keeps its `created_at`. -/
def upsert (t : ChunkTable F dim) (r : ChunkRow F) (h : r.embedding.length = dim) :
    ChunkTable F dim where
  rows := t.rows.set r.chunkId
    { r with createdAt := ((t.rows.get? r.chunkId).map ChunkRow.createdAt).getD r.createdAt }
  keyed := by
    rintro ⟨k, v⟩ hp
    rcases Dict.mem_items_set.mp hp with ⟨rfl, rfl⟩ | ⟨-, hp⟩
    · rfl
    · exact t.keyed _ hp
  sized := by
    rintro ⟨k, v⟩ hp
    rcases Dict.mem_items_set.mp hp with ⟨rfl, rfl⟩ | ⟨-, hp⟩
    · exact h
    · exact t.sized _ hp

def delete (t : ChunkTable F dim) (p : ChunkRow F → Bool) : ChunkTable F dim where
  rows := t.rows.filter fun x => !p x.2
  keyed x hx := t.keyed x (Dict.mem_items_filter.mp hx).1
  sized x hx := t.sized x (Dict.mem_items_filter.mp hx).1

end ChunkTable

/-- The database stores vectors of the column's dimension, and no text with a null
character. -/
def Storable (dim : ℕ) (r : ChunkRow F) : Prop :=
  r.embedding.length = dim ∧
    ∀ s ∈ [r.chunkId, r.docId, r.sourceType, r.title, r.content, r.embeddingModel],
      Char.ofNat 0 ∉ s

instance (r : ChunkRow F) : Decidable (Storable dim r) := inferInstanceAs (Decidable (_ ∧ _))

def upsertAll : (rows : List (ChunkRow F)) → (∀ r ∈ rows, Storable dim r) →
    ChunkTable F dim → ChunkTable F dim
  | [], _, t => t
  | r :: rows, h, t =>
    upsertAll rows (fun x hx => h x (by simp [hx])) (t.upsert r (h r (by simp)).1)

/-- One insert statement; it fails if it proposes a key twice. -/
def upsertChunks (rows : List (ChunkRow F)) (t : ChunkTable F dim) :
    Except Exn (ChunkTable F dim) :=
  if rows.isEmpty then .ok t
  else if h : ∀ r ∈ rows, Storable dim r then
    if (rows.map ChunkRow.chunkId).Nodup then .ok (upsertAll rows h t)
    else .error (.other "CardinalityViolationError".toList)
  else .error (.other "DataError".toList)

def deleteOrphans (docId : Text) (keep : ℕ) (t : ChunkTable F dim) : ChunkTable F dim :=
  t.delete fun r => r.docId = docId && keep ≤ r.chunkIndex

end GroundedOps.Ingestion
