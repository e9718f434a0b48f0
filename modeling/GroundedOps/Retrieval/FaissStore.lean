import GroundedOps.Ingestion.Store
import GroundedOps.Retrieval.Types

/-!
# The derived vector store

An index holds the vectors it was given, in order; the id map and the metadata give
them a meaning. The three are attributes of one store object. They are persisted in
two files, written one after the other; a file whose writing was cut short cannot be
read. What the two files hold is kept as values: reading a complete file gives back
what was written.
-/

namespace GroundedOps.Retrieval

open Python Ingestion

variable {F : Type}

structure ChunkMeta where
  docId : Text
  sourceType : Text
  title : Text
  content : Text
  charStart : ℤ
  charEnd : ℤ
  deriving DecidableEq

/-- A chunk plus its embedding, used to build the index. -/
structure StoredChunk (F : Type) where
  chunkId : Text
  metadata : ChunkMeta
  embedding : List F
  deriving DecidableEq

def StoredChunk.ofRow (r : ChunkRow F) : StoredChunk F :=
  ⟨r.chunkId, ⟨r.docId, r.sourceType, r.title, r.content, r.charStart, r.charEnd⟩, r.embedding⟩

/-- What `load_all` may return: the rows of the table, in whatever order. -/
def LoadAll {dim : ℕ} (table : ChunkTable F dim) (chunks : List (StoredChunk F)) : Prop :=
  chunks.Perm (table.rows.values.map StoredChunk.ofRow)

inductive IndexKind
  | flat
  | hnsw
  | ivf (nlist : ℕ)
  deriving DecidableEq

structure Index (F : Type) where
  kind : IndexKind
  dim : ℕ
  vectors : List (List F)
  deriving DecidableEq

structure FaissStore (F : Type) where
  dim : ℕ
  indexType : Text := "flat".toList
  index : Option (Index F) := none
  idMap : List Text := []
  metadata : Dict Text ChunkMeta := .empty
  embeddingModel : Option Text := none

/-- The content of the map file. -/
structure Sidecar where
  embeddingModel : Option Text
  dim : ℕ
  indexType : Text
  idMap : List Text
  metadata : Dict Text ChunkMeta

inductive File (α : Type)
  | written (content : α)
  | torn

structure Disk (F : Type) where
  index : Option (File (Index F)) := none
  map : Option (File Sidecar) := none

/-- A store object and the files under its path. -/
structure Process (F : Type) where
  store : FaissStore F
  disk : Disk F := {}

abbrev StoreM (F : Type) := EStateM Exn (Process F)

def assertionError : Exn := .other "AssertionError".toList
def runtimeError : Exn := .other "RuntimeError".toList
def indexError : Exn := .other "IndexError".toList
def keyError : Exn := .other "KeyError".toList

namespace FaissStore

def size (s : FaissStore F) : ℕ := s.idMap.length

def newIndex (s : FaissStore F) (n : ℕ) : IndexKind :=
  if s.indexType = "hnsw".toList then .hnsw
  else if s.indexType = "ivf".toList then
    .ivf (max 1 (min 100 (if n / 39 = 0 then 1 else n / 39)))
  else .flat

/-- `np.asarray` on rows of numbers, which must have one length. -/
def asarray (rows : List (List F)) : Except Exn (List (List F)) :=
  if ∀ r ∈ rows, ∀ q ∈ rows, r.length = q.length then .ok rows else .error .valueError

/-- Adds the vectors to a fresh index, which checks their dimension. -/
def buildSync (s : FaissStore F) (vectors : List (List F)) : Except Exn (Index F) :=
  if ∀ v ∈ vectors, v.length = s.dim then .ok ⟨s.newIndex vectors.length, s.dim, vectors⟩
  else .error assertionError

def buildIndex (s : FaissStore F) (chunks : List (StoredChunk F)) : Except Exn (Index F) :=
  if chunks.isEmpty then .ok ⟨.flat, s.dim, []⟩
  else do
    let vectors ← asarray (chunks.map StoredChunk.embedding)
    s.buildSync vectors

/-- The assignments of a build, between which nothing else runs. -/
def publish (s : FaissStore F) (index : Index F) (chunks : List (StoredChunk F))
    (embeddingModel : Text) : FaissStore F :=
  { s with
    index := some index
    idMap := chunks.map StoredChunk.chunkId
    metadata := Dict.ofList (chunks.map fun c => (c.chunkId, c.metadata))
    embeddingModel := some embeddingModel }

def sidecar (s : FaissStore F) : Sidecar :=
  ⟨s.embeddingModel, s.dim, s.indexType, s.idMap, s.metadata⟩

def accept (s : FaissStore F) (index : Index F) (sidecar : Sidecar) : FaissStore F :=
  { s with
    index := some index
    idMap := sidecar.idMap
    metadata := sidecar.metadata
    embeddingModel := sidecar.embeddingModel
    indexType := sidecar.indexType }

end FaissStore

def Disk.writeIndex (d : Disk F) (index : Index F) : Disk F := { d with index := some (.written index) }

def Disk.writeMap (d : Disk F) (sidecar : Sidecar) : Disk F := { d with map := some (.written sidecar) }

def persist : StoreM F Unit := do
  let p ← get
  match p.store.index with
  | none => throw assertionError
  | some index => set { p with disk := (p.disk.writeIndex index).writeMap p.store.sidecar }

def build (chunks : List (StoredChunk F)) (embeddingModel : Text) : StoreM F ℕ := do
  let p ← get
  match p.store.buildIndex chunks with
  | .error e => throw e
  | .ok index =>
    set { p with store := p.store.publish index chunks embeddingModel }
    persist
    return chunks.length

/-- `loaded` is what `load_all` returned. -/
def rebuildFromPg (loaded : List (StoredChunk F)) (embeddingModel : Text) : StoreM F ℕ :=
  build loaded embeddingModel

def load : StoreM F Bool := do
  let p ← get
  match p.disk.index, p.disk.map with
  | some indexFile, some mapFile =>
    match mapFile with
    | .torn => throw .valueError
    | .written sidecar =>
      if sidecar.dim ≠ p.store.dim then return false
      else
        match indexFile with
        | .torn => throw runtimeError
        | .written index =>
          set { p with store := p.store.accept index sidecar }
          return true
  | _, _ => return false

def ensure (loaded : List (StoredChunk F)) (embeddingModel : Text) : StoreM F Unit := do
  let found ← load
  let p ← get
  if found && p.store.embeddingModel == some embeddingModel then return ()
  else
    let _ ← rebuildFromPg loaded embeddingModel
    return ()

/-! ### Search -/

/-- The search of the vector library. The labels it returns are negative or positions of
vectors. -/
structure Engine (F : Type) where
  search : Index F → List F → ℤ → Except Exn (List (F × ℤ))
  label_lt : ∀ index query fetch hits, search index query fetch = .ok hits →
    ∀ hit ∈ hits, hit.2 < index.vectors.length

structure SearchArgs (F : Type) where
  queryVector : List F
  topK : ℤ
  filters : Option SearchFilters := none

namespace FaissStore

/-- The part of a search before the thread hand-off: the index and the number of hits to
fetch, unless there is nothing to search. -/
def searchStart (s : FaissStore F) (args : SearchArgs F) : Option (Index F × ℤ) :=
  match s.index with
  | none => none
  | some index =>
    if s.size = 0 then none
    else
      let fetch := if args.filters.any (!·.isEmpty) then args.topK * 5 else args.topK
      some (index, min fetch s.size)

def result (chunkId : Text) (m : ChunkMeta) (score : F) : RetrievedChunk F where
  chunkId := chunkId
  docId := m.docId
  sourceType := m.sourceType
  title := m.title
  content := m.content
  charStart := m.charStart
  charEnd := m.charEnd
  score := score
  retriever := "faiss".toList

/-- The loop over the hits, behind the thread hand-off. -/
def searchLoop (s : FaissStore F) (args : SearchArgs F) :
    List (F × ℤ) → List (RetrievedChunk F) → Except Exn (List (RetrievedChunk F))
  | [], out => .ok out
  | (score, label) :: hits, out =>
    if label < 0 then searchLoop s args hits out
    else
      match s.idMap[label.toNat]? with
      | none => .error indexError
      | some chunkId =>
        match s.metadata.get? chunkId with
        | none => .error keyError
        | some m =>
          if args.filters.any fun f => !f.allows m.sourceType m.docId then
            searchLoop s args hits out
          else
            let out := out ++ [result chunkId m score]
            if args.topK ≤ out.length then .ok out else searchLoop s args hits out

def searchFinish (s : FaissStore F) (args : SearchArgs F) (hits : Except Exn (List (F × ℤ))) :
    Except Exn (List (RetrievedChunk F)) := do
  s.searchLoop args (← hits) []

/-- A search during which nothing else runs. -/
def search (engine : Engine F) (s : FaissStore F) (args : SearchArgs F) :
    Except Exn (List (RetrievedChunk F)) :=
  match s.searchStart args with
  | none => .ok []
  | some (index, fetch) => s.searchFinish args (engine.search index args.queryVector fetch)

end FaissStore

end GroundedOps.Retrieval
