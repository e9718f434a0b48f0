import GroundedOps.Eval.DocRanking
import GroundedOps.Library.DiscountedSums
import Mathlib.Analysis.SpecialFunctions.Log.Base

/-!
# Discounted gain

The gain of a ranking with binary relevance, divided by the gain of an ideal one. The
discount falls with the rank, so the relevant documents are best placed first.
-/

namespace GroundedOps.Eval

open Python Discount

/-- The logarithm is over the reals. -/
noncomputable def discount (i : ℕ) : ℝ := 1 / Real.logb 2 (i + 2)

noncomputable def ndcgAtK (ranked : List Text) (relevant : Finset Text) (k : ℤ) : ℝ :=
  let gained := (sliceTo ranked k).zipIdx.filter fun p => p.1 ∈ relevant
  let dcg := (gained.map fun p => discount p.2).sum
  let idealHits := min (relevant.card : ℤ) k
  let idcg := ((List.range idealHits.toNat).map discount).sum
  if 0 < idcg then dcg / idcg else 0

/-! ### The discount -/

theorem logb_pos (i : ℕ) : 0 < Real.logb 2 (i + 2) := by
  apply Real.logb_pos one_lt_two
  have hi : (0 : ℝ) ≤ i := Nat.cast_nonneg i
  linarith

theorem discount_pos (i : ℕ) : 0 < discount i := one_div_pos.mpr (logb_pos i)

theorem discount_strictAnti : StrictAnti discount := by
  intro i j hij
  apply one_div_lt_one_div_of_lt (logb_pos i)
  have hi : (0 : ℝ) ≤ i := Nat.cast_nonneg i
  apply Real.logb_lt_logb one_lt_two
  · linarith
  · have hcast : (i : ℝ) < j := by exact_mod_cast hij
    linarith

/-! ### Gain and ideal gain -/

/-- The gain of the first `n` documents. -/
noncomputable def gain (ranked : List Text) (relevant : Finset Text) (n : ℕ) : ℝ :=
  ((hits (· ∈ relevant) 0 (ranked.take n)).map discount).sum

noncomputable def idealGain (n : ℕ) : ℝ := ((List.range n).map discount).sum

theorem idealGain_pos {n : ℕ} (h : 0 < n) : 0 < idealGain n := sum_range_lt discount_pos h

theorem ndcgAtK_eq {ranked : List Text} {relevant : Finset Text} {n : ℕ}
    (hne : relevant.Nonempty) (hn : 0 < n) :
    ndcgAtK ranked relevant n = gain ranked relevant n / idealGain (min relevant.card n) := by
  have hcard := hne.card_pos
  have hnat : (min (relevant.card : ℤ) n).toNat = min relevant.card n := by omega
  have hpos : 0 < ((List.range (min relevant.card n)).map discount).sum :=
    idealGain_pos (by omega)
  simp only [ndcgAtK, hnat, sliceTo_natCast]
  rw [if_pos hpos, gain, hits, List.map_map]
  rfl

section Ranking

variable {ranked : List Text} (relevant : Finset Text) (n : ℕ)

/-- A duplicate-free ranking does not find a document twice. -/
theorem length_hits_le (hnodup : ranked.Nodup) :
    (hits (· ∈ relevant) 0 (ranked.take n)).length ≤ min relevant.card n := by
  apply le_min
  · have hnodup' : ((ranked.take n).filter (· ∈ relevant)).Nodup :=
      (hnodup.sublist (List.take_sublist n ranked)).filter _
    rw [length_hits, List.countP_eq_length_filter, ← List.toFinset_card_of_nodup hnodup']
    apply Finset.card_le_card
    intro doc hdoc
    have hmem := (List.mem_filter.mp (List.mem_toFinset.mp hdoc)).2
    exact of_decide_eq_true hmem
  · rw [length_hits]
    exact List.countP_le_length.trans (List.length_take_le n ranked)

theorem gain_nonneg (ranked : List Text) : 0 ≤ gain ranked relevant n := by
  apply List.sum_nonneg
  intro x hx
  obtain ⟨i, -, rfl⟩ := List.mem_map.mp hx
  exact (discount_pos i).le

theorem gain_le_idealGain_hits (ranked : List Text) :
    gain ranked relevant n ≤ idealGain (hits (· ∈ relevant) 0 (ranked.take n)).length := by
  rw [gain, idealGain, List.range_eq_range']
  exact sum_le_sum_range' discount_strictAnti.antitone (hits_sorted _ 0 _)
    fun p _ => Nat.zero_le p

theorem gain_le_idealGain (hnodup : ranked.Nodup) :
    gain ranked relevant n ≤ idealGain (min relevant.card n) :=
  (gain_le_idealGain_hits relevant n ranked).trans
    (sum_range_mono discount_pos (length_hits_le relevant n hnodup))

/-- Only the hits of an ideal ranking gain what an ideal ranking does. -/
theorem gain_eq_idealGain_iff (hnodup : ranked.Nodup) :
    gain ranked relevant n = idealGain (min relevant.card n) ↔
      ∀ i < min relevant.card n, ∃ doc, ranked[i]? = some doc ∧ doc ∈ relevant := by
  have hlength := length_hits_le relevant n hnodup
  have hfirst : (∀ i < min relevant.card n, ∃ doc, ranked[i]? = some doc ∧ doc ∈ relevant) ↔
      ∀ i < min relevant.card n, ∃ doc, (ranked.take n)[i]? = some doc ∧ doc ∈ relevant := by
    apply forall₂_congr
    intro i hi
    rw [List.getElem?_take_of_lt (by omega)]
  rw [hfirst, ← hits_eq_range_iff _ hlength]
  constructor
  · intro heq
    have hle := gain_le_idealGain_hits relevant n ranked
    have hfull : (hits (· ∈ relevant) 0 (ranked.take n)).length = min relevant.card n := by
      by_contra hne
      have hlt := sum_range_lt discount_pos (lt_of_le_of_ne hlength hne)
      exact (hle.trans_lt hlt).ne heq
    rw [gain, idealGain, List.range_eq_range', ← hfull] at heq
    have hhits := (sum_eq_sum_range'_iff discount_strictAnti (hits_sorted _ 0 _)
      fun p _ => Nat.zero_le p).mp heq
    rw [← hfull, List.range_eq_range']
    exact hhits
  · intro heq
    rw [gain, heq, idealGain]

theorem gain_exchange (front back : List Text) {miss found : Text} (hmiss : miss ∉ relevant)
    (hfound : found ∈ relevant) :
    gain (front ++ miss :: found :: back) relevant n ≤
      gain (front ++ found :: miss :: back) relevant n :=
  sum_hits_exchange (· ∈ relevant) discount_strictAnti.antitone (fun i => (discount_pos i).le)
    front back hmiss hfound n

end Ranking

/-! ### Normalised gain -/

/-- Normalised gain is between zero and one, is one for an ideal beginning only, and does not
fall when a relevant document moves up past an irrelevant one. -/
theorem ndcg_behaviour {ranked : List Text} (hnodup : ranked.Nodup) {relevant : Finset Text}
    (hne : relevant.Nonempty) {k : ℤ} (hk : 1 ≤ k) :
    0 ≤ ndcgAtK ranked relevant k ∧ ndcgAtK ranked relevant k ≤ 1 ∧
    (ndcgAtK ranked relevant k = 1 ↔
      ∀ i : ℕ, i < min (relevant.card : ℤ) k → ∃ doc, ranked[i]? = some doc ∧ doc ∈ relevant) ∧
    ∀ front back miss found, ranked = front ++ miss :: found :: back → miss ∉ relevant →
      found ∈ relevant →
      ndcgAtK ranked relevant k ≤ ndcgAtK (front ++ found :: miss :: back) relevant k := by
  obtain ⟨n, rfl⟩ := Int.eq_ofNat_of_zero_le (show 0 ≤ k by omega)
  have hn : 0 < n := by omega
  have hcard := hne.card_pos
  have hideal : 0 < idealGain (min relevant.card n) := idealGain_pos (by omega)
  rw [ndcgAtK_eq hne hn]
  refine ⟨div_nonneg (gain_nonneg relevant n ranked) hideal.le,
    div_le_one_of_le₀ (gain_le_idealGain relevant n hnodup) hideal.le, ?_, ?_⟩
  · rw [div_eq_one_iff_eq hideal.ne', gain_eq_idealGain_iff relevant n hnodup]
    apply forall_congr'
    intro i
    have hlt : ((i : ℤ) < min (relevant.card : ℤ) n) ↔ i < min relevant.card n := by omega
    rw [hlt]
  · intro front back miss found hranked hmiss hfound
    rw [ndcgAtK_eq hne hn, hranked]
    exact div_le_div_of_nonneg_right (gain_exchange relevant n front back hmiss hfound) hideal.le

def lateHit : List Text := ["a".toList, "b".toList]

def earlyHit : List Text := ["b".toList, "a".toList]

theorem ndcg_behaviour_two :
    0 ≤ ndcgAtK lateHit {"b".toList} 2 ∧ ndcgAtK lateHit {"b".toList} 2 ≤ 1 ∧
      ndcgAtK lateHit {"b".toList} 2 ≠ 1 ∧
      ndcgAtK lateHit {"b".toList} 2 ≤ ndcgAtK earlyHit {"b".toList} 2 ∧
      ndcgAtK earlyHit {"b".toList} 2 = 1 := by
  have hcard : ({"b".toList} : Finset Text).card = 1 := Finset.card_singleton _
  obtain ⟨hnonneg, hle, hone, hexchange⟩ := ndcg_behaviour (show lateHit.Nodup by decide)
    (Finset.singleton_nonempty "b".toList) (show (1 : ℤ) ≤ 2 by omega)
  obtain ⟨-, -, hone', -⟩ := ndcg_behaviour (show earlyHit.Nodup by decide)
    (Finset.singleton_nonempty "b".toList) (show (1 : ℤ) ≤ 2 by omega)
  refine ⟨hnonneg, hle, ?_, ?_, ?_⟩
  · intro heq
    obtain ⟨doc, hdoc, hmem⟩ := hone.mp heq 0 (by rw [hcard]; norm_num)
    cases hdoc
    exact absurd (Finset.mem_singleton.mp hmem) (by decide)
  · exact hexchange [] [] _ _ rfl (by decide) (by decide)
  · apply hone'.mpr
    intro i hi
    have hzero : i = 0 := by
      rw [hcard] at hi
      omega
    subst hzero
    exact ⟨"b".toList, rfl, Finset.mem_singleton_self _⟩

end GroundedOps.Eval
