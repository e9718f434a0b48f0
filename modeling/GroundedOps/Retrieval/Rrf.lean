import GroundedOps.Library.Dict
import GroundedOps.Library.Ranking
import GroundedOps.Python.Sequences
import GroundedOps.Retrieval.Types

/-!
# Reciprocal rank fusion

Scores are sums of reciprocals: `reciprocal n` stands for `1.0 / n`. The scores and the
first-seen instances are kept in two dictionaries with the same keys.
-/

namespace GroundedOps.Retrieval

open Python Ranking

variable {F : Type}

structure Fusion (F : Type) where
  scores : Dict Text F := .empty
  representative : Dict Text (RetrievedChunk F) := .empty

namespace Fusion

variable [Zero F] [Add F] (reciprocal : ℕ → F) (k : ℕ)

/-- One chunk with its rank, which starts at one in every list. -/
def push (s : Fusion F) (p : RetrievedChunk F × ℕ) : Fusion F where
  scores := s.scores.set p.1.chunkId
    ((s.scores.get? p.1.chunkId).getD 0 + reciprocal (k + p.2))
  representative := s.representative.setdefault p.1.chunkId p.1

def fuse (rankings : List (List (RetrievedChunk F))) : Fusion F :=
  rankings.foldl (fun s ranking => (ranking.zipIdx 1).foldl (push reciprocal k) s) {}

/-- Every representative has a score. -/
def score (s : Fusion F) (chunkId : Text) : F := (s.scores.get? chunkId).getD 0

def key (s : Fusion F) (chunkId : Text) : F ×ₗ Text := toLex (s.score chunkId, chunkId)

def ordered [LinearOrder F] (s : Fusion F) : List (RetrievedChunk F) :=
  s.representative.values.insertionSort fun a b => s.key b.chunkId ≤ s.key a.chunkId

/-- A representative with the merged score. -/
def merged (s : Fusion F) (c : RetrievedChunk F) : RetrievedChunk F :=
  { c with score := s.score c.chunkId, retriever := "rrf".toList }

end Fusion

def reciprocalRankFusion [Zero F] [Add F] [LinearOrder F] (reciprocal : ℕ → F)
    (rankings : List (List (RetrievedChunk F))) (k : ℕ) (topK : Option ℤ) :
    List (RetrievedChunk F) :=
  let s := Fusion.fuse reciprocal k rankings
  let fused := s.ordered.map s.merged
  topK.elim fused (sliceTo fused)

/-! ### What the two dictionaries hold -/

/-- All chunks with their ranks, in the order in which they are seen. -/
def entries (rankings : List (List (RetrievedChunk F))) : List (RetrievedChunk F × ℕ) :=
  rankings.flatMap fun ranking => ranking.zipIdx 1

namespace Fusion

variable {reciprocal : ℕ → F} {k : ℕ}

theorem fuse_eq [Zero F] [Add F] (rankings : List (List (RetrievedChunk F))) :
    fuse reciprocal k rankings = (entries rankings).foldl (push reciprocal k) {} :=
  List.foldl_flatMap.symm

/-- The representative of an identifier is the first chunk with it. -/
theorem representative_get? [Zero F] [Add F] (ps : List (RetrievedChunk F × ℕ)) (id : Text) :
    (ps.foldl (push reciprocal k) {}).representative.get? id =
      (ps.map Prod.fst).find? fun c => c.chunkId = id := by
  induction ps using List.reverseRecOn with
  | nil => rfl
  | append_singleton ps p ih =>
    rw [List.foldl_concat, push, Dict.get?_setdefault, ih, List.map_append, List.find?_append]
    by_cases h : p.1.chunkId = id
    · simp [h]
    · simp [h, Ne.symm h]

theorem score_eq_sum [AddMonoid F] (ps : List (RetrievedChunk F × ℕ)) (id : Text) :
    (ps.foldl (push reciprocal k) {}).score id =
      ((ps.filter fun p => p.1.chunkId = id).map fun p => reciprocal (k + p.2)).sum := by
  induction ps using List.reverseRecOn with
  | nil => rfl
  | append_singleton ps p ih =>
    have hscore : ((ps ++ [p]).foldl (push reciprocal k) {}).score id =
        if id = p.1.chunkId then
          (ps.foldl (push reciprocal k) {}).score p.1.chunkId + reciprocal (k + p.2)
        else (ps.foldl (push reciprocal k) {}).score id := by
      rw [List.foldl_concat, score, push, Dict.get?_set]
      split_ifs <;> rfl
    rw [hscore, List.filter_append, List.map_append, List.sum_append]
    by_cases h : id = p.1.chunkId
    · rw [if_pos h, ← h, ih]
      simp [h]
    · rw [if_neg h, ih]
      simp [Ne.symm h]

theorem sum_zipIdx [AddMonoid F] {ranking : List (RetrievedChunk F)}
    (h : (chunkIds ranking).Nodup) (n : ℕ) (id : Text) :
    (((ranking.zipIdx n).filter fun p => p.1.chunkId = id).map fun p => reciprocal (k + p.2)).sum =
      weight (fun i => reciprocal (k + (n + i))) id (chunkIds ranking) := by
  induction ranking generalizing n with
  | nil => rfl
  | cons c ranking ih =>
    rw [chunkIds_cons, List.nodup_cons] at h
    obtain ⟨hc, hrest⟩ := h
    have ih := ih hrest (n + 1)
    rw [List.zipIdx_cons, chunkIds_cons]
    by_cases hid : c.chunkId = id
    · subst hid
      rw [weight_of_notMem hc] at ih
      rw [List.filter_cons_of_pos (by simp), List.map_cons, List.sum_cons, ih, add_zero,
        weight_cons_self, Nat.add_zero]
    · rw [List.filter_cons_of_neg (by simpa using hid), ih, weight_cons_ne hid]
      simp only [Nat.add_assoc, Nat.add_comm 1]

/-- What a rank contributes; positions start at zero. -/
def rrfWeight (reciprocal : ℕ → F) (k i : ℕ) : F := reciprocal (k + (1 + i))

/-- The scores are the positional scores of the rankings. -/
theorem score_fuse [AddMonoid F] {rankings : List (List (RetrievedChunk F))}
    (h : ∀ ranking ∈ rankings, (chunkIds ranking).Nodup) (id : Text) :
    (fuse reciprocal k rankings).score id =
      rankScore (rrfWeight reciprocal k) (rankings.map chunkIds) id := by
  rw [fuse_eq, score_eq_sum, entries]
  induction rankings with
  | nil => rfl
  | cons ranking rankings ih =>
    obtain ⟨hranking, hrest⟩ := List.forall_mem_cons.mp h
    rw [List.flatMap_cons, List.filter_append, List.map_append, List.sum_append, ih hrest,
      sum_zipIdx hranking]
    rfl

theorem map_entries (rankings : List (List (RetrievedChunk F))) :
    (entries rankings).map Prod.fst = rankings.flatten := by
  rw [entries, List.map_flatMap, ← List.flatMap_id]
  simp only [List.zipIdx_map_fst]
  rfl

section Representatives

variable [Zero F] [Add F]

theorem representative_fuse (rankings : List (List (RetrievedChunk F))) (id : Text) :
    (fuse reciprocal k rankings).representative.get? id =
      rankings.flatten.find? fun c => c.chunkId = id := by
  rw [fuse_eq, representative_get?, map_entries]

theorem of_mem_representative {rankings : List (List (RetrievedChunk F))} {id : Text}
    {c : RetrievedChunk F} (h : (id, c) ∈ (fuse reciprocal k rankings).representative.items) :
    c.chunkId = id ∧ c ∈ rankings.flatten := by
  have hfind := (representative_fuse rankings id).symm.trans (Dict.get?_eq_some.mpr h)
  exact ⟨by simpa using List.find?_some hfind, List.mem_of_find?_eq_some hfind⟩

theorem mem_keys_representative {rankings : List (List (RetrievedChunk F))} {id : Text} :
    id ∈ (fuse reciprocal k rankings).representative.keys ↔ id ∈ chunkIds rankings.flatten := by
  rw [← Dict.get?_isSome, representative_fuse, List.find?_isSome, chunkIds, List.mem_map]
  simp only [decide_eq_true_eq]

theorem chunkIds_representative (rankings : List (List (RetrievedChunk F))) :
    chunkIds (fuse reciprocal k rankings).representative.values =
      (fuse reciprocal k rankings).representative.keys := by
  rw [chunkIds, Dict.values, Dict.keys, List.map_map]
  apply List.map_congr_left
  rintro ⟨id, c⟩ h
  exact (of_mem_representative h).1

end Representatives

theorem key_injective [Zero F] (s : Fusion F) : Function.Injective s.key := by
  intro id id' h
  exact congrArg Prod.snd (toLex_inj.mp h)

end Fusion

/-! ### The fused list -/

section Fused

variable [LinearOrder F] {reciprocal : ℕ → F} {rankings : List (List (RetrievedChunk F))} {k : ℕ}

section Order

variable [Zero F] [Add F]

theorem chunkIds_fused : chunkIds (reciprocalRankFusion reciprocal rankings k none) =
    chunkIds (Fusion.fuse reciprocal k rankings).ordered := List.map_map

theorem fused_perm : (chunkIds (reciprocalRankFusion reciprocal rankings k none)).Perm
    (Fusion.fuse reciprocal k rankings).representative.keys := by
  rw [chunkIds_fused, ← Fusion.chunkIds_representative]
  exact (List.perm_insertionSort _ _).map _

theorem nodup_fused : (chunkIds (reciprocalRankFusion reciprocal rankings k none)).Nodup :=
  fused_perm.nodup_iff.mpr (Dict.nodup_keys _)

theorem mem_chunkIds_fused {id : Text} :
    id ∈ chunkIds (reciprocalRankFusion reciprocal rankings k none) ↔
      ∃ ranking ∈ rankings, id ∈ chunkIds ranking := by
  rw [fused_perm.mem_iff, Fusion.mem_keys_representative]
  simp only [chunkIds, List.map_flatten, List.mem_flatten, List.mem_map,
    exists_exists_and_eq_and]

theorem descending_ordered : Descending (fun c => (Fusion.fuse reciprocal k rankings).key c.chunkId)
    (Fusion.fuse reciprocal k rankings).ordered := by
  have hnodup : (chunkIds (Fusion.fuse reciprocal k rankings).representative.values).Nodup := by
    rw [Fusion.chunkIds_representative]
    exact Dict.nodup_keys _
  apply descending_insertionSort (fun _ _ => Iff.rfl) hnodup.of_map
  intro c hc d hd h
  exact List.inj_on_of_nodup_map hnodup hc hd (Fusion.key_injective _ h)

theorem descending_chunkIds : Descending (Fusion.fuse reciprocal k rankings).key
    (chunkIds (reciprocalRankFusion reciprocal rankings k none)) := by
  rw [chunkIds_fused, Descending, chunkIds, List.pairwise_map]
  exact descending_ordered

theorem score_of_mem_fused {c : RetrievedChunk F}
    (h : c ∈ reciprocalRankFusion reciprocal rankings k none) :
    c.score = (Fusion.fuse reciprocal k rankings).score c.chunkId := by
  obtain ⟨d, -, rfl⟩ := List.mem_map.mp h
  rfl

/-- All that a fused chunk has besides its score is that of a ranked chunk. -/
theorem exists_of_mem_fused {c : RetrievedChunk F}
    (h : c ∈ reciprocalRankFusion reciprocal rankings k none) :
    ∃ ranking ∈ rankings, ∃ d ∈ ranking, c = (Fusion.fuse reciprocal k rankings).merged d := by
  obtain ⟨d, hd, rfl⟩ := List.mem_map.mp h
  rw [Fusion.ordered, List.mem_insertionSort] at hd
  obtain ⟨⟨id, d⟩, hitem, rfl⟩ := List.mem_map.mp hd
  obtain ⟨ranking, hranking, hmem⟩ := List.mem_flatten.mp (Fusion.of_mem_representative hitem).2
  exact ⟨ranking, hranking, d, hmem, rfl⟩

end Order

end Fused

/-- `1.0 / n` in exact arithmetic -/
def inverse (n : ℕ) : ℚ := 1 / n

/-- What the fusion of these rankings is. -/
structure Fused (rankings : List (List (RetrievedChunk ℚ))) (k : ℕ)
    (fused : List (RetrievedChunk ℚ)) : Prop where
  nodup : (chunkIds fused).Nodup
  complete : ∀ id, id ∈ chunkIds fused ↔ ∃ ranking ∈ rankings, id ∈ chunkIds ranking
  scores : ∀ c ∈ fused, c.score =
    ((rankings.filter fun ranking => c.chunkId ∈ chunkIds ranking).map fun ranking =>
      1 / ((k : ℚ) + rank (chunkIds ranking) c.chunkId)).sum
  descending : fused.Pairwise fun c d => toLex (d.score, d.chunkId) < toLex (c.score, c.chunkId)

theorem fused_of_nodup {rankings : List (List (RetrievedChunk ℚ))}
    (h : ∀ ranking ∈ rankings, (chunkIds ranking).Nodup) (k : ℕ) :
    Fused rankings k (reciprocalRankFusion inverse rankings k none) where
  nodup := nodup_fused
  complete _ := mem_chunkIds_fused
  scores c hc := by
    rw [score_of_mem_fused hc, Fusion.score_fuse h, rankScore_eq_sum, List.filter_map, List.map_map]
    simp only [Fusion.rrfWeight, inverse, rank, Nat.cast_add, Function.comp_def]
  descending := by
    have hordered : Descending (fun c => (Fusion.fuse inverse k rankings).key c.chunkId)
        (Fusion.fuse inverse k rankings).ordered := descending_ordered
    exact List.pairwise_map.mpr hordered

theorem fused_perm_rankings {rankings rankings' : List (List (RetrievedChunk ℚ))}
    (h : ∀ ranking ∈ rankings, (chunkIds ranking).Nodup) (hperm : rankings'.Perm rankings) (k : ℕ) :
    (reciprocalRankFusion inverse rankings' k none).map (fun c => (c.chunkId, c.score)) =
      (reciprocalRankFusion inverse rankings k none).map fun c => (c.chunkId, c.score) := by
  have h' : ∀ ranking ∈ rankings', (chunkIds ranking).Nodup :=
    fun ranking hr => h ranking (hperm.mem_iff.mp hr)
  have hscore : (Fusion.fuse inverse k rankings').score = (Fusion.fuse inverse k rankings).score := by
    funext id
    rw [Fusion.score_fuse h', Fusion.score_fuse h]
    exact rankScore_perm (hperm.map chunkIds) id
  have hkey : (Fusion.fuse inverse k rankings').key = (Fusion.fuse inverse k rankings).key := by
    unfold Fusion.key
    rw [hscore]
  have hids : chunkIds (reciprocalRankFusion inverse rankings' k none) =
      chunkIds (reciprocalRankFusion inverse rankings k none) := by
    have hdesc : Descending (Fusion.fuse inverse k rankings').key
        (chunkIds (reciprocalRankFusion inverse rankings' k none)) := descending_chunkIds
    rw [hkey] at hdesc
    apply hdesc.eq_of_perm descending_chunkIds
    apply (List.perm_ext_iff_of_nodup nodup_fused nodup_fused).mpr
    intro id
    rw [mem_chunkIds_fused, mem_chunkIds_fused]
    simp only [hperm.mem_iff]
  have hpairs : ∀ rs : List (List (RetrievedChunk ℚ)),
      (reciprocalRankFusion inverse rs k none).map (fun c => (c.chunkId, c.score)) =
        (chunkIds (reciprocalRankFusion inverse rs k none)).map
          fun id => (id, (Fusion.fuse inverse k rs).score id) := by
    intro rs
    rw [chunkIds, List.map_map]
    apply List.map_congr_left
    intro c hc
    rw [score_of_mem_fused hc, Function.comp_apply]
  rw [hpairs, hpairs, hids, hscore]

/-- The fused list meets its formula, the order of the rankings does not matter, and a limit
keeps a prefix. -/
theorem fusion_meets_formula {rankings : List (List (RetrievedChunk ℚ))}
    (h : ∀ ranking ∈ rankings, (chunkIds ranking).Nodup) (k : ℕ) :
    Fused rankings k (reciprocalRankFusion inverse rankings k none) ∧
      (∀ rankings', rankings'.Perm rankings →
        (reciprocalRankFusion inverse rankings' k none).map (fun c => (c.chunkId, c.score)) =
          (reciprocalRankFusion inverse rankings k none).map fun c => (c.chunkId, c.score)) ∧
      ∀ topK : ℕ, reciprocalRankFusion inverse rankings k (some topK) =
        (reciprocalRankFusion inverse rankings k none).take topK :=
  ⟨fused_of_nodup h k, fun _ hperm => fused_perm_rankings h hperm k,
    fun topK => sliceTo_natCast _ topK⟩

/-- A chunk of which only the identifier matters. -/
def bareChunk (id : Text) : RetrievedChunk ℚ := ⟨id, [], [], [], [], 0, 0, 0, []⟩

def sampleRankings : List (List (RetrievedChunk ℚ)) :=
  [["a".toList, "b".toList].map bareChunk, ["b".toList, "c".toList].map bareChunk]

theorem fusion_meets_formula_sample :
    Fused sampleRankings 60 (reciprocalRankFusion inverse sampleRankings 60 none) :=
  (fusion_meets_formula (by decide) 60).1

end GroundedOps.Retrieval
